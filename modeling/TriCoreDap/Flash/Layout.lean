import TriCoreDap.Library.Word

/-!
# Program flash geometry

The populated ranges by `FSIZE`, the areas that are never written, and the
translation of an address to the one the command interface takes for it, which
the address swap does not remap.
-/

namespace TriCoreDap
namespace Flash

def pflashBase : Nat := 0xA0000000
def pflashCached : Nat := 0x80000000
def pflashWindow : Nat := 0x01000000

def swapGroupLow : Nat := 0xA0000000
def swapGroupHigh : Nat := 0xA0600000
def swapStride : Nat := swapGroupHigh - swapGroupLow

/-- `TRICORE_FLASH_PAGE`: written whole. -/
def flashPage : Nat := 32
/-- `TRICORE_FLASH_SECTOR`: erased whole. -/
def flashSector : Nat := 0x4000
/-- `TRICORE_FLASH_ERASED`. -/
def flashErased : Byte := 0xFF

/-- `tricore_flash_range_t`: the end is exclusive. -/
structure Range where
  start : Nat
  stop : Nat
  deriving DecidableEq, Repr

def Range.Contains (range : Range) (address : Nat) : Prop :=
  range.start ≤ address ∧ address < range.stop

instance (range : Range) (address : Nat) : Decidable (range.Contains address) :=
  inferInstanceAs (Decidable (_ ∧ _))

/-- `NEVER_PROGRAM`: the UCBs and the configuration sector store. -/
def neverProgram : List Range :=
  [⟨0xAF400000, 0xAF406000⟩, ⟨0xAF800000, 0xAF810000⟩]

/-- `tricore_flash_layout`, by the `FSIZE` of `SCU_CHIPID` where it is readable. -/
def flashLayout : Option Word → List Range
  | none => []
  | some chipid =>
      match chipid >>> 24 &&& 0xF with
      | 0xC => [⟨0xA0000000, 0xA0A00000⟩]
      | 0xB => [⟨0xA0000000, 0xA0400000⟩, ⟨0xA0600000, 0xA0A00000⟩]
      | _ => []

def toPhysical (address : Nat) : Nat :=
  if pflashCached ≤ address ∧ address < pflashCached + pflashWindow then
    address - pflashCached + pflashBase
  else address

def isNever (address : Nat) : Bool :=
  neverProgram.any fun range => decide (range.Contains address)

def isProgramFlash (layout : List Range) (address : Nat) : Bool :=
  let physical := toPhysical address
  !isNever physical && layout.any fun range => decide (range.Contains physical)

def commandAddress (swapActive : Bool) (address : Nat) : Nat :=
  let physical := toPhysical address
  if !swapActive then physical
  else if swapGroupLow ≤ physical ∧ physical < swapGroupHigh then physical + swapStride
  else if swapGroupHigh ≤ physical ∧ physical < swapGroupHigh + swapStride then
    physical - swapStride
  else physical

/-- The address is in populated program flash and in no area that is never
written. -/
def Populated (layout : List Range) (address : Nat) : Prop :=
  (∃ range ∈ layout, range.Contains address) ∧
    ∀ range ∈ neverProgram, ¬range.Contains address

/-- The address is not one of the cached alias. -/
def Uncached (address : Nat) : Prop :=
  toPhysical address = address

variable {chipid : Option Word} {layout : List Range} {swapActive : Bool}
  {address sector : Nat}

/-- The ranges of a layout are whole sectors of the first 10 MB. -/
theorem flashLayout_ranges :
    ∀ range ∈ flashLayout chipid, range.start % flashSector = 0 ∧
      range.stop % flashSector = 0 ∧ pflashBase ≤ range.start ∧ range.stop ≤ 0xA0A00000 := by
  intro range member
  unfold flashLayout at member
  split at member
  · exact absurd member List.not_mem_nil
  · split at member
    · obtain rfl := List.mem_singleton.mp member
      decide
    · simp only [List.mem_cons, List.not_mem_nil, or_false] at member
      rcases member with rfl | rfl
      · decide
      · decide
    · exact absurd member List.not_mem_nil

theorem uncached_iff :
    Uncached address ↔ address < 0x80000000 ∨ 0x81000000 ≤ address := by
  have window : pflashCached + pflashWindow = 0x81000000 := rfl
  rw [Uncached, toPhysical, window, pflashCached, pflashBase]
  split
  · omega
  · omega

theorem isProgramFlash_iff (uncached : Uncached address) :
    isProgramFlash layout address = true ↔ Populated layout address := by
  rw [Uncached] at uncached
  simp only [isProgramFlash, uncached, isNever, Bool.and_eq_true, Bool.not_eq_true',
    List.any_eq_false, decide_eq_true_eq, List.any_eq_true, Populated]
  exact And.comm

theorem commandAddress_false (uncached : Uncached address) :
    commandAddress false address = address :=
  uncached

/-- The swap exchanges the two bank groups. -/
theorem commandAddress_true (uncached : Uncached address) :
    (0xA0000000 ≤ address ∧ address < 0xA0600000 ∧
      commandAddress true address = address + 0x600000) ∨
    (0xA0600000 ≤ address ∧ address < 0xA0C00000 ∧
      commandAddress true address = address - 0x600000) ∨
    ((address < 0xA0000000 ∨ 0xA0C00000 ≤ address) ∧
      commandAddress true address = address) := by
  have stride : swapStride = 0x600000 := rfl
  have physical : toPhysical address = address := uncached
  simp only [commandAddress, physical, stride, swapGroupLow, swapGroupHigh,
    Bool.not_true, Bool.false_eq_true, if_false]
  split
  · omega
  · split
    · omega
    · omega

/-- The translation stays uncached. -/
theorem uncached_commandAddress (swapActive : Bool) (uncached : Uncached address) :
    Uncached (commandAddress swapActive address) := by
  cases swapActive with
  | false => rwa [commandAddress_false uncached]
  | true =>
      have translated := commandAddress_true uncached
      rw [uncached_iff] at *
      omega

/-- The translation of uncached addresses is its own inverse. -/
theorem commandAddress_commandAddress (swapActive : Bool) (uncached : Uncached address) :
    commandAddress swapActive (commandAddress swapActive address) = address := by
  cases swapActive with
  | false => rw [commandAddress_false uncached, commandAddress_false uncached]
  | true =>
      have first := commandAddress_true uncached
      have second := commandAddress_true (uncached_commandAddress true uncached)
      omega

theorem commandAddress_injective
    {left right : Nat}
    (uncachedLeft : Uncached left)
    (uncachedRight : Uncached right)
    (same : commandAddress swapActive left = commandAddress swapActive right) :
    left = right := by
  rw [← commandAddress_commandAddress swapActive uncachedLeft, same,
    commandAddress_commandAddress swapActive uncachedRight]

/-- A sector whose commands go to populated program flash. -/
structure Programmable
    (chipid : Option Word)
    (swapActive : Bool)
    (sector : Nat) : Prop where
  aligned : sector % flashSector = 0
  uncached : Uncached sector
  populated : Populated (flashLayout chipid) (commandAddress swapActive sector)

/-- A populated range has room for whole sectors. -/
theorem Populated.within
    (populated : Populated (flashLayout chipid) address)
    (aligned : address % flashSector = 0)
    (inSector : offset < flashSector) :
    Populated (flashLayout chipid) (address + offset) := by
  obtain ⟨⟨range, member, above, below⟩, -⟩ := populated
  obtain ⟨-, stopAligned, -, top⟩ := flashLayout_ranges range member
  simp only [flashSector] at *
  refine ⟨⟨range, member, by omega, by omega⟩, ?_⟩
  intro never inNever contained
  simp only [neverProgram, List.mem_cons, List.not_mem_nil, or_false] at inNever
  rcases inNever with rfl | rfl
  · have := contained.1
    simp only at this
    omega
  · have := contained.1
    simp only at this
    omega

/-- The addresses of program flash, as the commands take them. -/
theorem Programmable.bounds (programmable : Programmable chipid swapActive sector) :
    0xA0000000 ≤ commandAddress swapActive sector ∧
      commandAddress swapActive sector < 0xA0A00000 := by
  obtain ⟨⟨range, member, above, below⟩, -⟩ := programmable.populated
  obtain ⟨-, -, bottom, top⟩ := flashLayout_ranges range member
  simp only [pflashBase] at bottom
  omega

/-- A sector that can be programmed lies in the first 12 MB. -/
theorem Programmable.sector_bounds (programmable : Programmable chipid swapActive sector) :
    0xA0000000 ≤ sector ∧ sector < 0xA0C00000 := by
  have bounds := programmable.bounds
  cases swapActive with
  | false =>
      rw [commandAddress_false programmable.uncached] at bounds
      omega
  | true =>
      have translated := commandAddress_true programmable.uncached
      omega

/-- The whole sector is translated alike. -/
theorem Programmable.commandAddress_add
    (programmable : Programmable chipid swapActive sector)
    (inSector : offset < flashSector) :
    commandAddress swapActive (sector + offset) =
      commandAddress swapActive sector + offset := by
  have aligned := programmable.aligned
  have bounds := programmable.sector_bounds
  have uncached : Uncached (sector + offset) := uncached_iff.mpr (by omega)
  cases swapActive with
  | false => rw [commandAddress_false uncached, commandAddress_false programmable.uncached]
  | true =>
      have here := commandAddress_true programmable.uncached
      have there := commandAddress_true uncached
      simp only [flashSector] at *
      omega

theorem Programmable.command_aligned
    (programmable : Programmable chipid swapActive sector) :
    commandAddress swapActive sector % flashSector = 0 := by
  have aligned := programmable.aligned
  cases swapActive with
  | false => rwa [commandAddress_false programmable.uncached]
  | true =>
      have translated := commandAddress_true programmable.uncached
      simp only [flashSector] at *
      omega

/-- All of the sector is populated. -/
theorem Programmable.populated_add
    (programmable : Programmable chipid swapActive sector)
    (inSector : offset < flashSector) :
    Populated (flashLayout chipid) (commandAddress swapActive sector + offset) :=
  programmable.populated.within programmable.command_aligned inSector

/-- Two adjacent sectors that can be programmed are translated alike: under a
swap the sectors below the group boundary cannot. -/
theorem Programmable.commandAddress_next
    (programmable : Programmable chipid swapActive sector)
    (next : Programmable chipid swapActive (sector + flashSector)) :
    commandAddress swapActive (sector + flashSector) =
      commandAddress swapActive sector + flashSector := by
  have bounds := programmable.bounds
  have nextBounds := next.bounds
  cases swapActive with
  | false => rw [commandAddress_false next.uncached, commandAddress_false programmable.uncached]
  | true =>
      have here := commandAddress_true programmable.uncached
      have there := commandAddress_true next.uncached
      simp only [flashSector] at *
      omega

end Flash
end TriCoreDap
