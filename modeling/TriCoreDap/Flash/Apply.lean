import TriCoreDap.Flash.Interpreter
import TriCoreDap.Flash.Layout

/-!
# Erase, program and verify

`tricore_flash_apply` and the stages it is made of.  The RAM loader and the
filling of its buffer are operations of the target; progress counters and
timings are left out.
-/

namespace TriCoreDap
namespace Flash

open Probe

def loaderBuffer : Nat := 0x70004000
def loaderBufferBytes : Nat := 32 * 1024
/-- 12 MB of 16 KB sectors. -/
def maxSectors : Nat := 768
def eraseRunMax : Nat := 32
def physicalSector : Nat := 0x00100000
def errsrSqer : Nat := 1 <<< 1
def cpu0Flashcon0 : Nat := 0xF8801100
def dmuHfPcontrol : Nat := 0xF8040064

/-- `tricore_flash_region_t`; its length is that of its data. -/
structure FlashRegion where
  address : Nat
  data : List Byte

def FlashRegion.length (region : FlashRegion) : Nat := region.data.length

/-- The end of a region, in `uint32_t`. -/
def FlashRegion.stop (region : FlashRegion) : Nat :=
  u32 (region.address + region.length)

/-- Why a stage failed: the messages of `fail`. -/
inductive FlashFault
  | invalidArg
  | tooManySectors
  | notErasable (address : Nat)
  | eraseFailed (address : Nat) (errsr : Word)
  | notPageAligned (address : Nat)
  | notProgrammable (address : Nat)
  | bufferNotFilled
  | loader
  | crcDiffers (onTarget inImage : Word)
  deriving DecidableEq, Repr

abbrev FlashResult := Except FlashFault Unit

/-- What the erase stage keeps between its commands: `s_multi_erase` and the
latched error. -/
structure EraseState where
  multiErase : Bool
  errsr : Word
  deriving DecidableEq, Repr

/-- The state of a session that the stages read. -/
structure FlashSession where
  chipid : Option Word
  swapActive : Bool
  differential : Bool
  saved : Option (Word × Word)
  eraseState : EraseState

def FlashSession.layout (session : FlashSession) : List Range :=
  flashLayout session.chipid

def FlashSession.command (session : FlashSession) (address : Nat) : Nat :=
  commandAddress session.swapActive address

/-- A value rounded down to a multiple of `size`. -/
def alignDown (value size : Nat) : Nat := value / size * size

/-! ## Erasing -/

def eraseRangeSequence (command count : Nat) : List (Nat × Nat) :=
  [ (cycle5554, cmdClearStatus), (cycleAA50, command), (cycleAA58, count),
    (cycleAAA8, cmdEraseSetup), (cycleAAA8, cmdErase) ]

/-- `erase_range`, with the latched error afterwards. -/
def eraseRange
    (swapActive : Bool)
    (address count : Nat)
    (errsr : Word) : Run (Bool × Word) := do
  if ← cycles (eraseRangeSequence (commandAddress swapActive address) count) then
    match ← waitIdle 5000 with
    | .idle =>
        let cleared ← clearStatus
        return (cleared, errsr)
    | .timeout => return (false, errsr)
    | .failed latched => return (false, latched)
  else return (false, errsr)

/-- How many sectors one command may erase, `run` of them counted so far and
the others still to be looked at. -/
def eraseRun (swapActive : Bool) (first : Nat) : (run : Nat) → List Word → Nat
  | run, [] => run
  | run, sector :: rest =>
      let expected := u32 (first + run * flashSector)
      if run < eraseRunMax ∧ commandAddress swapActive sector = expected ∧
          alignDown first physicalSector = alignDown expected physicalSector then
        eraseRun swapActive first (run + 1) rest
      else run

/-- One round of `erase_sectors`: how many sectors were erased. -/
def eraseNext
    (swapActive : Bool)
    (state : EraseState)
    (sector : Word)
    (rest : List Word) : Run (Option Nat × EraseState) := do
  let run :=
    if state.multiErase then
      eraseRun swapActive (commandAddress swapActive sector) 1 rest
    else 1
  let (erased, errsr) ← eraseRange swapActive sector run state.errsr
  if erased then return (some run, ⟨state.multiErase, errsr⟩)
  else if 1 < run ∧ errsr &&& errsrSqer ≠ 0 then
    let (erased, errsr) ← eraseRange swapActive sector 1 0
    return (if erased then some 1 else none, ⟨false, errsr⟩)
  else return (none, ⟨state.multiErase, errsr⟩)

/-- `erase_sectors`. -/
def eraseSectors
    (swapActive : Bool)
    (state : EraseState) : List Word → Run (FlashResult × EraseState)
  | [] => .done (.ok (), state)
  | sector :: rest => do
      match ← eraseNext swapActive state sector rest with
      | (some run, state') => eraseSectors swapActive state' (rest.drop (run - 1))
      | (none, state') => return (.error (.eraseFailed sector state'.errsr), state')
  termination_by sectors => sectors.length
  decreasing_by
    simp only [List.length_drop, List.length_cons]
    omega

/-! ## Programming -/

def padding (length : Nat) : Nat := (flashPage - length % flashPage) % flashPage

/-- The loop of `tricore_flash_program`, at `offset` with the data from there. -/
def programChunks
    (session : FlashSession)
    (address offset : Nat)
    (data : List Byte) : Run FlashResult :=
  if data = [] then .done (.ok ())
  else do
    let chunk := data.take loaderBufferBytes
    let padded := chunk ++ List.replicate (padding chunk.length) flashErased
    let start := u32 (address + offset)
    if !isProgramFlash session.layout (session.command start) then
      return .error (.notProgrammable start)
    else if ← Program.perform (Op.writeBlock loaderBuffer padded) then
      match ← Program.perform (Op.runLoader .program (session.command start)
          (padded.length / flashPage) 20000) with
      | none => return .error .loader
      | some _ =>
          programChunks session address (offset + chunk.length) (data.drop loaderBufferBytes)
    else return .error .bufferNotFilled
  termination_by data.length
  decreasing_by
    have nonempty : 0 < data.length := List.length_pos_iff.mpr ‹¬data = []›
    rw [List.length_drop, loaderBufferBytes]
    omega

/-- `tricore_flash_program`. -/
def tricoreFlashProgram
    (session : FlashSession)
    (address : Nat)
    (data : List Byte) : Run FlashResult :=
  if address % flashPage ≠ 0 then .done (.error (.notPageAligned address))
  else programChunks session address 0 data

/-- `tricore_flash_verify`. -/
def tricoreFlashVerify (address : Nat) (data : List Byte) : Run FlashResult := do
  match ← Program.perform (Op.runLoader .checksum address data.length
      (2000 + data.length / 500)) with
  | none => return .error .loader
  | some onTarget =>
      return if onTarget ≠ crc32 data then .error (.crcDiffers onTarget (crc32 data))
        else .ok ()

/-- `tricore_flash_safe_shutdown`. -/
def safeShutdown (session : FlashSession) : Run Unit := do
  let _ ← clearStatus
  match session.saved with
  | none => return ()
  | some (flashcon0, pcontrol) =>
      let _ ← write32 cpu0Flashcon0 flashcon0
      let _ ← write32 dmuHfPcontrol pcontrol
      return ()

/-! ## Comparing -/

/-- `lo` of `sector_differs`. -/
def overlapLow (sector : Word) (region : FlashRegion) : Nat :=
  if region.address > sector then region.address else sector

/-- `hi` of `sector_differs`. -/
def overlapHigh (sector : Word) (region : FlashRegion) : Nat :=
  if region.stop < u32 (sector + flashSector) then region.stop else u32 (sector + flashSector)

/-- Whether the target differs from the region's bytes in `[low, high)`. -/
def bytesDiffer (region : FlashRegion) (low high : Nat) : Run Bool :=
  if low ≥ high then .done false
  else do
    let pad := if high = region.stop then padding high else 0
    let image := crc32Update wordOnes
      ((region.data.drop (low - region.address)).take (high - low))
    let expected := wordOnes - crc32Update image (List.replicate pad 0)
    let count := high - low + pad
    match ← Program.perform (Op.runLoader .checksum (toPhysical low) count
        (60 + count / 2000)) with
    | none => return true
    | some actual => return actual != expected

/-- The round of `sector_differs` for one region. -/
def regionDiffers (sector : Word) (region : FlashRegion) : Run Bool :=
  bytesDiffer region (overlapLow sector region) (overlapHigh sector region)

/-- `sector_differs`. -/
def sectorDiffers (sector : Word) : List FlashRegion → Run Bool
  | [] => .done false
  | region :: rest => do
      if ← regionDiffers sector region then return true else sectorDiffers sector rest

/-- Whether a sector is kept to be erased and programmed. -/
def keepSector
    (session : FlashSession)
    (regions : List FlashRegion)
    (sector : Word) : Run Bool :=
  if !session.differential then .done true else sectorDiffers sector regions

/-- The sectors, each with whether it is kept. -/
def keepSectors
    (session : FlashSession)
    (regions : List FlashRegion) : List Word → Run (List (Word × Bool))
  | [] => .done []
  | sector :: rest => do
      let keep ← keepSector session regions sector
      let others ← keepSectors session regions rest
      return (sector, keep) :: others

/-! ## Programming the kept sectors -/

/-- The end of a run of consecutive kept sectors: its last sector and what
comes after it. -/
def keptRun (stop : Nat) : (last : Word) → List (Word × Bool) → Word × List (Word × Bool)
  | last, [] => (last, [])
  | last, (sector, keep) :: rest =>
      if keep ∧ sector = u32 (last + flashSector) ∧ sector < stop then
        keptRun stop sector rest
      else (last, (sector, keep) :: rest)

theorem length_keptRun (stop last : Nat) (sectors : List (Word × Bool)) :
    (keptRun stop last sectors).2.length ≤ sectors.length := by
  induction sectors generalizing last with
  | nil => exact Nat.le_refl _
  | cons entry rest inductionHypothesis =>
      obtain ⟨sector, keep⟩ := entry
      rw [keptRun]
      split
      · exact Nat.le_trans (inductionHypothesis sector) (Nat.le_succ _)
      · exact Nat.le_refl _

/-- `program_kept`. -/
def programKept
    (session : FlashSession)
    (region : FlashRegion) : List (Word × Bool) → Run FlashResult
  | [] => .done (.ok ())
  | (sector, keep) :: rest =>
      if !keep ∨ u32 (sector + flashSector) ≤ region.address ∨ region.stop ≤ sector then
        programKept session region rest
      else do
        let last := (keptRun region.stop sector rest).1
        let low := if sector > region.address then sector else region.address
        let top := u32 (last + flashSector)
        let high := if top < region.stop then top else region.stop
        match ← tricoreFlashProgram session low
            ((region.data.drop (low - region.address)).take (sub32 high low)) with
        | .error fault => return .error fault
        | .ok () => programKept session region (keptRun region.stop sector rest).2
  termination_by sectors => sectors.length
  decreasing_by
    · simp
    · have := length_keptRun region.stop sector rest
      simp only [List.length_cons]
      omega

/-! ## The whole image -/

/-- The sectors of one region, added to those found so far.  The loop has been
through the whole address space when the fuel is used up. -/
def collectRegion : (fuel address stop : Nat) → List Word → Option (List Word)
  | 0, _, _, sectors => some sectors
  | fuel + 1, address, stop, sectors =>
      if address < stop then
        if address ∈ sectors then
          collectRegion fuel (u32 (address + flashSector)) stop sectors
        else if sectors.length = maxSectors then none
        else collectRegion fuel (u32 (address + flashSector)) stop (sectors ++ [address])
      else some sectors

/-- The sectors the regions touch, or `none` for too many. -/
def collectSectors : List FlashRegion → List Word → Option (List Word)
  | [], sectors => some sectors
  | region :: rest, sectors =>
      match collectRegion (2 ^ 32 / flashSector) (alignDown region.address flashSector)
          region.stop sectors with
      | none => none
      | some sectors => collectSectors rest sectors

/-- Program the kept sectors of every region until one fails. -/
def programRegions
    (session : FlashSession)
    (kept : List (Word × Bool)) : List FlashRegion → Run FlashResult
  | [] => .done (.ok ())
  | region :: rest => do
      match ← programKept session region kept with
      | .error fault => return .error fault
      | .ok () => programRegions session kept rest

/-- Verify every region until one fails. -/
def verifyRegions : List FlashRegion → Run FlashResult
  | [] => .done (.ok ())
  | region :: rest => do
      match ← tricoreFlashVerify region.address region.data with
      | .error fault => return .error fault
      | .ok () => verifyRegions rest

def eraseList (kept : List (Word × Bool)) : List Word :=
  (kept.filter (·.2)).map (·.1)

/-- Erase the kept sectors, then program them. -/
def eraseAndProgram
    (session : FlashSession)
    (regions : List FlashRegion)
    (kept : List (Word × Bool)) : Run (FlashResult × EraseState) := do
  if eraseList kept = [] then return (.ok (), session.eraseState)
  else
    match ← eraseSectors session.swapActive session.eraseState (eraseList kept) with
    | (.error fault, state) => return (.error fault, state)
    | (.ok (), state) =>
        let result ← programRegions session kept regions
        return (result, state)

/-- `tricore_flash_apply` once the sectors are known to be erasable. -/
def applySectors
    (session : FlashSession)
    (regions : List FlashRegion)
    (sectors : List Word) : Run (FlashResult × EraseState) := do
  let kept ← keepSectors session regions sectors
  let (result, state) ← eraseAndProgram session regions kept
  safeShutdown session
  match result with
  | .error fault => return (.error fault, state)
  | .ok () =>
      let result ← verifyRegions regions
      return (result, state)

/-- `tricore_flash_apply`. -/
def tricoreFlashApply
    (session : FlashSession)
    (regions : List FlashRegion) : Run (FlashResult × EraseState) :=
  if regions = [] then .done (.error .invalidArg, session.eraseState)
  else
    match collectSectors regions [] with
    | none => do
        safeShutdown session
        return (.error .tooManySectors, session.eraseState)
    | some found =>
        let sectors := found.mergeSort
        match sectors.find? fun sector =>
            !isProgramFlash session.layout (session.command sector) with
        | some sector => do
            safeShutdown session
            return (.error (.notErasable sector), session.eraseState)
        | none => applySectors session regions sectors

end Flash
end TriCoreDap
