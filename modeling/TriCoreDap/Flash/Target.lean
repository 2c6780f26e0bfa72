import TriCoreDap.Flash.Commands
import TriCoreDap.Library.Memory

/-!
# A target with program flash

The flash cells by the addresses that commands take; reads go through the swap.
An erase command that takes effect leaves the range erased, a load writes the
loader's buffer into erased pages, and every operation may fail, a command that
fails leaving anything in its range.  The loader's checksum, when it answers, is
the CRC of what is read.
-/

namespace TriCoreDap
namespace Flash

open Probe

structure FlashTarget where
  cells : Nat → Byte
  address : Word
  count : Word
  buffer : List Byte
  log : List Event

/-- The bytes read from `address` on. -/
def readBytes
    (swapActive : Bool)
    (cells : Nat → Byte)
    (address count : Nat) : List Byte :=
  (List.range count).map fun i => cells (commandAddress swapActive (address + i))

/-- All cells of the page are erased. -/
def PageErased (cells : Nat → Byte) (page : Nat) : Prop :=
  ∀ i, i < flashPage → cells (page + i) = flashErased

/-- The pages that were erased hold the buffer. -/
def PagesWritten
    (addr pages : Nat)
    (buffer : List Byte)
    (before after : Nat → Byte) : Prop :=
  ∀ page, page < pages → PageErased before (addr + flashPage * page) →
    ∀ i, i < flashPage → after (addr + flashPage * page + i) =
      buffer.getD (flashPage * page + i) flashErased

namespace FlashTarget

/-- A cycle that starts no command. -/
def latch (target : FlashTarget) (addr value : Word) : FlashTarget :=
  if addr = csiBase + cycleAA50 then { target with address := value }
  else if addr = csiBase + cycleAA58 then { target with count := value }
  else target

/-- What a cycle that the target sees may do. -/
inductive Took (target : FlashTarget) : Word → Word → FlashTarget → Prop
  | latch (calm : Calm (.write32 addr value)) :
      Took target addr value (target.latch addr value)
  | eraseDone :
      Took target (csiBase + cycleAAA8) cmdErase
        { target with
          cells := fill target.address (flashSector * target.count) flashErased target.cells }
  | eraseFailed
      (same : SameOutside target.address (flashSector * target.count) target.cells cells') :
      Took target (csiBase + cycleAAA8) cmdErase { target with cells := cells' }
  | programmed :
      Took target (csiBase + cycleAAA8) cmdProgram { target with cells := cells' }

/-- What the target may do on an operation, before it is logged. -/
def Acts
    (swapActive : Bool)
    (target : FlashTarget) : (op : Op) → Reply op → FlashTarget → Prop
  | .write32 addr value, reply, after =>
      target.Took addr value after ∨ reply = false ∧ after = target
  | .writeBlock addr data, reply, after =>
      if addr = loaderBuffer then
        ∃ buffer', after = { target with buffer := buffer' } ∧
          (reply = true → buffer' = data)
      else after = target
  | .runLoader .program addr pages _, reply, after =>
      ∃ cells', after = { target with cells := cells' } ∧
        SameOutside addr (flashPage * pages) target.cells cells' ∧
          (reply ≠ none → PagesWritten addr pages target.buffer target.cells cells')
  | .runLoader .checksum addr count _, reply, after =>
      after = target ∧ ∀ crc, reply = some crc →
        crc = crc32 (readBytes swapActive target.cells addr count)
  | _, _, after => after = target

/-- How the target may answer an operation. -/
def device (swapActive : Bool) : Device Op Reply FlashTarget :=
  fun op target reply target' => ∃ after, target.Acts swapActive op reply after ∧
    target' = { after with log := target.log ++ [⟨op, reply⟩] }

variable {swapActive : Bool} {target target' after : FlashTarget}

theorem latch_cells : (target.latch addr value).cells = target.cells := by
  simp only [latch]
  split
  · rfl
  · split <;> rfl

theorem device_log (step : device swapActive op target reply target') :
    target'.log = target.log ++ [⟨op, reply⟩] := by
  obtain ⟨after, -, rfl⟩ := step
  rfl

theorem device_logging (step : device swapActive op target reply target') :
    logging op target.log reply target'.log :=
  device_log step

end FlashTarget

/-- A command may change the cell; where its operands are not known it may
change any. -/
def MayChange (address : Nat) : Command → Prop
  | .erase (some command) (some count) =>
      command ≤ address ∧ address < command + flashSector * count
  | .erase _ _ => True
  | .program _ => True
  | .load addr pages => addr ≤ address ∧ address < addr + flashPage * pages

/-- Some command of the log may have changed the cell. -/
def Changeable (log : List Event) (address : Nat) : Prop :=
  ∃ before event after command, log = before ++ event :: after ∧
    commandOf before event.1 = some command ∧ MayChange address command

theorem Changeable.append
    (changeable : Changeable log address) (event : Event) :
    Changeable (log ++ [event]) address := by
  obtain ⟨before, first, after, command, rfl, facts⟩ := changeable
  exact ⟨before, first, after ++ [event], command, by simp, facts⟩

theorem changeable_command
    {event : Event}
    (isCommand : commandOf log event.1 = some command)
    (mayChange : MayChange address command) : Changeable (log ++ [event]) address :=
  ⟨log, event, [], command, rfl, isCommand, mayChange⟩

/-! ## Only commands change cells -/

/-- The latch holds what the log says, where it is known. -/
def Follows (log : List Event) (slot : Nat) (current : Word) : Prop :=
  ∀ value, latched slot log = some value → current = value

theorem follows_write (log : List Event) (slot value : Nat) (reply : Bool) :
    Follows (log ++ [⟨.write32 slot value, reply⟩]) slot value := by
  intro known seen
  rw [latched_append, latchStep, if_pos rfl] at seen
  split at seen
  · exact Option.some.inj seen
  · cases seen

theorem Follows.elsewhere
    (follows : Follows log slot current)
    (different : addr ≠ slot)
    (value : Nat)
    (reply : Bool) :
    Follows (log ++ [⟨.write32 addr value, reply⟩]) slot current := by
  intro known seen
  rw [latched_append_other _ different] at seen
  exact follows known seen

/-- A write that is not seen leaves the latch as it was, or unknown. -/
theorem Follows.unseen
    (follows : Follows log slot current)
    (addr value : Nat) :
    Follows (log ++ [⟨.write32 addr value, false⟩]) slot current := by
  by_cases here : addr = slot
  · intro known seen
    rw [latched_append, latchStep, if_pos here] at seen
    cases seen
  · exact follows.elsewhere here value false

/-- The target has latched what its log says, and only commands changed cells. -/
structure Faithful (initial : Nat → Byte) (target : FlashTarget) : Prop where
  address : Follows target.log (csiBase + cycleAA50) target.address
  count : Follows target.log (csiBase + cycleAA58) target.count
  cells : ∀ address, ¬Changeable target.log address → target.cells address = initial address

variable {initial : Nat → Byte} {target target' after : FlashTarget} {swapActive : Bool}

/-- Cells that no command may have changed are as they were. -/
theorem Faithful.cells_of_command
    {event : Event}
    {cells' : Nat → Byte}
    (faithful : Faithful initial target)
    (isCommand : commandOf target.log event.1 = some command)
    (outside : ∀ address, cells' address ≠ target.cells address →
      MayChange address command)
    (address : Nat)
    (unchangeable : ¬Changeable (target.log ++ [event]) address) :
    cells' address = initial address := by
  have before := faithful.cells address fun changeable => unchangeable (changeable.append event)
  rw [← before]
  by_contra changed
  exact unchangeable (changeable_command isCommand (outside address changed))

theorem Faithful.cells_of_same
    (faithful : Faithful initial target)
    (event : Event)
    (address : Nat)
    (unchangeable : ¬Changeable (target.log ++ [event]) address) :
    target.cells address = initial address :=
  faithful.cells address fun changeable => unchangeable (changeable.append event)

/-- The range of an erase command is the one its operands say. -/
theorem Faithful.mayChange_erase
    {address : Nat}
    (faithful : Faithful initial target)
    (inRange : target.address ≤ address ∧
      address < target.address + flashSector * target.count) :
    MayChange address (.erase (latched (csiBase + cycleAA50) target.log)
      (latched (csiBase + cycleAA58) target.log)) := by
  cases command : latched (csiBase + cycleAA50) target.log with
  | none => trivial
  | some first =>
      cases count : latched (csiBase + cycleAA58) target.log with
      | none => trivial
      | some sectors =>
          rw [faithful.address first command, faithful.count sectors count] at inRange
          exact inRange

/-- An erase command changes no cell outside its range. -/
theorem Faithful.erase
    (faithful : Faithful initial target)
    (same : SameOutside target.address (flashSector * target.count) target.cells cells')
    (reply : Bool) :
    Faithful initial
      { target with
        cells := cells'
        log := target.log ++ [⟨.write32 (csiBase + cycleAAA8) cmdErase, reply⟩] } where
  address := faithful.address.elsewhere (by decide) _ _
  count := faithful.count.elsewhere (by decide) _ _
  cells := faithful.cells_of_command (commandOf_erase _) fun _ changed =>
    faithful.mayChange_erase (same.mem_of_ne changed)

theorem Faithful.latch
    (faithful : Faithful initial target)
    (addr value : Word)
    (reply : Bool) :
    Faithful initial
      { target.latch addr value with
        log := target.log ++ [⟨.write32 addr value, reply⟩] } := by
  have cells := faithful.cells_of_same ⟨.write32 addr value, reply⟩
  by_cases first : addr = csiBase + cycleAA50
  · subst first
    rw [FlashTarget.latch, if_pos rfl]
    exact ⟨follows_write _ _ _ _, faithful.count.elsewhere (by decide) _ _, cells⟩
  · by_cases second : addr = csiBase + cycleAA58
    · subst second
      rw [FlashTarget.latch, if_neg first, if_pos rfl]
      exact ⟨faithful.address.elsewhere first _ _, follows_write _ _ _ _, cells⟩
    · rw [FlashTarget.latch, if_neg first, if_neg second]
      exact ⟨faithful.address.elsewhere first _ _, faithful.count.elsewhere second _ _, cells⟩

theorem Faithful.write
    (faithful : Faithful initial target)
    (acts : target.Acts swapActive (.write32 addr value) reply after) :
    Faithful initial
      { after with log := target.log ++ [⟨.write32 addr value, reply⟩] } := by
  rcases acts with took | ⟨rfl, rfl⟩
  · cases took with
    | latch calm => exact faithful.latch addr value reply
    | eraseDone => exact faithful.erase (sameOutside_fill _ _ _ _) reply
    | eraseFailed same => exact faithful.erase same reply
    | programmed =>
        exact ⟨faithful.address.elsewhere (by decide) _ _,
          faithful.count.elsewhere (by decide) _ _,
          faithful.cells_of_command (commandOf_program _) fun _ _ => True.intro⟩
  · exact ⟨faithful.address.unseen _ _, faithful.count.unseen _ _, faithful.cells_of_same _⟩

/-- Other operations leave the latches alone. -/
theorem Faithful.other
    {event : Event}
    (faithful : Faithful initial target)
    (noLatch : ∀ slot latch, latchStep slot latch event = latch)
    (cells : ∀ address, ¬Changeable (target.log ++ [event]) address →
      after.cells address = initial address)
    (sameAddress : after.address = target.address)
    (sameCount : after.count = target.count) :
    Faithful initial { after with log := target.log ++ [event] } where
  address value seen := by
    rw [latched_append, noLatch] at seen
    exact sameAddress.trans (faithful.address value seen)
  count value seen := by
    rw [latched_append, noLatch] at seen
    exact sameCount.trans (faithful.count value seen)
  cells := cells

/-- What only commands changed stays so. -/
theorem Faithful.step
    (op : Op)
    (target : FlashTarget)
    (reply : Reply op)
    (target' : FlashTarget)
    (faithful : Faithful initial target)
    (step : FlashTarget.device swapActive op target reply target') :
    Faithful initial target' := by
  obtain ⟨after, acts, rfl⟩ := step
  cases op with
  | write32 addr value => exact faithful.write acts
  | read32 addr =>
      obtain rfl := acts
      exact faithful.other (fun _ _ => rfl) (faithful.cells_of_same _) rfl rfl
  | clearErrorState =>
      obtain rfl := acts
      exact faithful.other (fun _ _ => rfl) (faithful.cells_of_same _) rfl rfl
  | deadline timeoutMs =>
      obtain rfl := acts
      exact faithful.other (fun _ _ => rfl) (faithful.cells_of_same _) rfl rfl
  | writeBlock addr data =>
      have acts : if addr = loaderBuffer then ∃ buffer',
          after = { target with buffer := buffer' } ∧ (reply = true → buffer' = data)
          else after = target := acts
      split at acts
      · obtain ⟨buffer', rfl, -⟩ := acts
        exact faithful.other (fun _ _ => rfl) (faithful.cells_of_same _) rfl rfl
      · obtain rfl := acts
        exact faithful.other (fun _ _ => rfl) (faithful.cells_of_same _) rfl rfl
  | runLoader cmd addr count timeoutMs =>
      cases cmd with
      | checksum =>
          obtain ⟨rfl, -⟩ := acts
          exact faithful.other (fun _ _ => rfl) (faithful.cells_of_same _) rfl rfl
      | program =>
          obtain ⟨cells', rfl, same, -⟩ := acts
          have isCommand : commandOf target.log (.runLoader .program addr count timeoutMs) =
              some (.load addr count) := rfl
          refine faithful.other (fun _ _ => rfl) ?_ rfl rfl
          exact faithful.cells_of_command isCommand fun _ changed => same.mem_of_ne changed

/-! ## A target that obeys -/

/-- The range written with a buffer. -/
def written (addr size : Nat) (buffer : List Byte) (cells : Nat → Byte) (address : Nat) : Byte :=
  if addr ≤ address ∧ address < addr + size then buffer.getD (address - addr) flashErased
  else cells address

theorem sameOutside_written (addr size : Nat) (buffer : List Byte) (cells : Nat → Byte) :
    SameOutside addr size cells (written addr size buffer cells) := by
  intro address outside
  rw [written, if_neg]
  omega

namespace FlashTarget

/-- What an operation does when nothing fails. -/
def obeyed (target : FlashTarget) : Op → FlashTarget
  | .write32 addr value =>
      if addr = csiBase + cycleAAA8 ∧ value = cmdErase then
        { target with
          cells := fill target.address (flashSector * target.count) flashErased target.cells }
      else if addr = csiBase + cycleAAA8 ∧ value = cmdProgram then target
      else target.latch addr value
  | .writeBlock addr data =>
      if addr = loaderBuffer then { target with buffer := data } else target
  | .runLoader .program addr pages _ =>
      { target with cells := written addr (flashPage * pages) target.buffer target.cells }
  | _ => target

/-- Everything succeeds at once; the flash is not swapped. -/
def answer (target : FlashTarget) : (op : Op) → Reply op
  | .read32 _ => some (0 : Word)
  | .write32 _ _ => true
  | .clearErrorState => ()
  | .deadline _ => (0 : Nat)
  | .writeBlock _ _ => true
  | .runLoader .program _ _ _ => some (0 : Word)
  | .runLoader .checksum addr count _ => some (crc32 (readBytes false target.cells addr count))

def obey (op : Op) (target : FlashTarget) : Reply op × FlashTarget :=
  (target.answer op, { target.obeyed op with log := target.log ++ [⟨op, target.answer op⟩] })

theorem pagesWritten_written (addr pages : Nat) (buffer : List Byte) (cells : Nat → Byte) :
    PagesWritten addr pages buffer cells (written addr (flashPage * pages) buffer cells) := by
  intro page inPages _ i inPage
  rw [written, if_pos]
  · congr 1
    omega
  · simp only [flashPage] at *
    omega

theorem acts_obeyed (op : Op) (target : FlashTarget) :
    target.Acts false op (target.answer op) (target.obeyed op) := by
  cases op with
  | read32 addr => exact rfl
  | clearErrorState => exact rfl
  | deadline timeoutMs => exact rfl
  | writeBlock addr data =>
      simp only [Acts, obeyed]
      split
      · exact ⟨data, rfl, fun _ => rfl⟩
      · rfl
  | runLoader cmd addr count timeoutMs =>
      cases cmd with
      | checksum => exact ⟨rfl, fun crc found => (Option.some.inj found).symm⟩
      | program =>
          exact ⟨_, rfl, sameOutside_written _ _ _ _, fun _ => pagesWritten_written _ _ _ _⟩
  | write32 addr value =>
      left
      simp only [obeyed]
      split
      · next isErase =>
          obtain ⟨rfl, rfl⟩ := isErase
          exact .eraseDone
      · split
        · next isProgram =>
            obtain ⟨rfl, rfl⟩ := isProgram
            exact .programmed
        · next notErase notProgram =>
            apply Took.latch
            apply calm_cycle
            tauto

theorem device_obey (op : Op) (target : FlashTarget) :
    device false op target (obey op target).1 (obey op target).2 :=
  ⟨_, acts_obeyed op target, rfl⟩

/-- The target after a stage. -/
def run (program : Run α) (target : FlashTarget) : FlashTarget :=
  (program.runFor obey 50 target).2

/-- The target that obeys, as a device. -/
def obeying : Device Op Reply FlashTarget :=
  fun op target reply after => obey op target = (reply, after)

theorem returns_obeying
    {program : Run α}
    {target : FlashTarget}
    (finished : (program.runFor obey 50 target).1 = some result) :
    program.Returns obeying target result (target.run program) :=
  Program.returns_runFor obey (fun _ _ => rfl) 50 (Prod.ext finished rfl)

theorem device_of_obeying
    {target after : FlashTarget}
    {op : Op}
    {reply : Reply op}
    (step : obeying op target reply after) : device false op target reply after := by
  obtain ⟨rfl, rfl⟩ := Prod.mk.inj step
  exact device_obey op target

end FlashTarget

end Flash
end TriCoreDap
