import TriCoreDap.Flash.OnImage
import TriCoreDap.Flash.Target

/-!
# What a successful apply leaves

The regions read as the image, because the verification compared them; sectors
that no region touches and sectors that were not erased read as before, because
only the permitted commands change cells.
-/

namespace TriCoreDap
namespace Flash

open Probe

/-- An erase command of the log covers the address. -/
def EraseCommanded (log : List Event) (address : Nat) : Prop :=
  ∃ (before : List Event) (event : Event) (after : List Event) (command count : Nat),
    log = before ++ event :: after ∧
      commandOf before event.1 = some (.erase (some command) (some count)) ∧
      command ≤ address ∧ address < command + flashSector * count

/-- An erase command of the log covers a byte of the sector. -/
def SectorErased (session : FlashSession) (log : List Event) (sector : Nat) : Prop :=
  ∃ offset, offset < flashSector ∧ EraseCommanded log (session.command (sector + offset))

/-- The strings the verification compares have different CRCs unless they are
the same. -/
def NoCollision
    (session : FlashSession)
    (regions : List FlashRegion)
    (cells : Nat → Byte) : Prop :=
  ∀ region ∈ regions,
    let onTarget := readBytes session.swapActive cells region.address region.length
    crc32 onTarget = crc32 region.data → onTarget = region.data

/-- The byte that is read at an address. -/
def FlashTarget.reads (target : FlashTarget) (session : FlashSession) (address : Nat) : Byte :=
  target.cells (session.command address)

variable {session : FlashSession} {regions : List FlashRegion} {log : List Event}
  {target last : FlashTarget} {region : FlashRegion} {sector address offset index : Nat}

/-! ## Which cells can change -/

theorem EraseCommanded.append
    (commanded : EraseCommanded log address) (after : List Event) :
    EraseCommanded (log ++ after) address := by
  obtain ⟨before, event, rest, command, count, rfl, facts⟩ := commanded
  exact ⟨before, event, rest ++ after, command, count, by simp, facts⟩

theorem ErasedIn.eraseCommanded (erasedIn : ErasedIn log address) :
    EraseCommanded log address := by
  obtain ⟨before, middle, errsr, after, command, count, rfl, erases, -, -, covers⟩ := erasedIn
  exact ⟨before, _, _, command, count, rfl, erases, covers⟩

/-- Pages are loaded only where an erase command went before. -/
theorem eraseCommanded_of_changeable
    (permitted : AllPermitted session regions log)
    (changeable : Changeable log address) : EraseCommanded log address := by
  obtain ⟨before, event, after, command, rfl, isCommand, mayChange⟩ := changeable
  have allowed := permitted before event after rfl command isCommand
  cases command with
  | erase addr count =>
      obtain ⟨first, sectors, rfl, rfl, -⟩ := allowed
      exact ⟨before, event, after, first, sectors, rfl, isCommand, mayChange⟩
  | program addr => exact allowed.elim
  | load addr pages =>
      obtain ⟨region, -, first, loads⟩ := allowed
      obtain ⟨above, below⟩ := mayChange
      have erasedIn := loads.erased (address - addr) (by omega)
      rw [show addr + (address - addr) = address by omega] at erasedIn
      exact erasedIn.eraseCommanded.append _

/-- An erase command covers touched sectors only. -/
theorem touched_of_eraseCommanded
    (permitted : AllPermitted session regions log)
    (commanded : EraseCommanded log address) :
    ∃ sector offset, offset < flashSector ∧ sector % flashSector = 0 ∧ Uncached sector ∧
      (∃ region ∈ regions, Touches region sector) ∧
        session.command (sector + offset) = address := by
  obtain ⟨before, event, after, command, count, rfl, isCommand, above, below⟩ := commanded
  obtain ⟨first, sectors, first_eq, sectors_eq, touched⟩ :=
    permitted before event after rfl _ isCommand
  obtain rfl := Option.some.inj first_eq
  obtain rfl := Option.some.inj sectors_eq
  have inRange : (address - command) / flashSector < count := by
    simp only [flashSector] at *
    omega
  obtain ⟨sector, aligned, uncached, touches, commands⟩ := touched _ inRange
  have inSector : (address - command) % flashSector < flashSector := Nat.mod_lt _ (by decide)
  refine ⟨sector, _, inSector, aligned, uncached, touches, ?_⟩
  rw [(commands _ inSector).1, Nat.add_assoc, Nat.div_add_mod]
  omega

theorem uncached_sector
    (aligned : sector % flashSector = 0)
    (uncached : Uncached sector)
    (inSector : offset < flashSector) : Uncached (sector + offset) := by
  rw [uncached_iff] at *
  simp only [flashSector] at *
  omega

/-- An erased sector is touched. -/
theorem touched_of_sectorErased
    (permitted : AllPermitted session regions log)
    (aligned : sector % flashSector = 0)
    (uncached : Uncached sector)
    (erased : SectorErased session log sector) :
    ∃ region ∈ regions, Touches region sector := by
  obtain ⟨offset, inSector, commanded⟩ := erased
  obtain ⟨sector', offset', inSector', aligned', uncached', touches, same⟩ :=
    touched_of_eraseCommanded permitted commanded
  have same := commandAddress_injective (uncached_sector aligned' uncached' inSector')
    (uncached_sector aligned uncached inSector) same
  obtain rfl : sector' = sector := by
    simp only [flashSector] at *
    omega
  exact touches

/-- A sector that was not erased reads as before. -/
theorem unchanged_of_not_sectorErased
    (permitted : AllPermitted session regions last.log)
    (faithful : Faithful target.cells last)
    (notErased : ¬SectorErased session last.log sector)
    (inSector : offset < flashSector) :
    last.reads session (sector + offset) = target.reads session (sector + offset) := by
  refine faithful.cells _ fun changeable => notErased ⟨offset, inSector, ?_⟩
  exact eraseCommanded_of_changeable permitted changeable

/-! ## The verification -/

/-- Verified regions have the image's CRC in the cells as they are. -/
theorem holds_verifyRegions
    (session : FlashSession)
    (cells : Nat → Byte)
    (same : target.cells = cells)
    (regions : List FlashRegion) :
    (verifyRegions regions).Holds (FlashTarget.device session.swapActive)
      (fun target => target.cells = cells)
      (fun result _ => result = .ok () → ∀ region ∈ regions,
        crc32 (readBytes session.swapActive cells region.address region.length) =
          crc32 region.data) target := by
  induction regions generalizing target with
  | nil => exact ⟨same, fun _ region member => absurd member List.not_mem_nil⟩
  | cons region rest inductionHypothesis =>
      have verifies : (tricoreFlashVerify region.address region.data).Holds
          (FlashTarget.device session.swapActive) (fun target => target.cells = cells)
          (fun result _ => result = .ok () →
            crc32 (readBytes session.swapActive cells region.address region.length) =
              crc32 region.data) target := by
        refine ⟨same, fun reply target' step => ?_⟩
        obtain ⟨after, ⟨rfl, checks⟩, rfl⟩ := step
        cases reply with
        | none => exact ⟨same, fun impossible => nomatch impossible⟩
        | some onTarget =>
            refine ⟨same, fun ok => ?_⟩
            split at ok
            · exact nomatch ok
            · next equal =>
                rw [← same, ← not_not.mp equal]
                exact (checks onTarget rfl).symm
      refine verifies.bind fun result target₁ same₁ verified₁ => ?_
      cases result with
      | error fault => exact ⟨same₁, fun impossible => nomatch impossible⟩
      | ok _ =>
          refine (inductionHypothesis same₁).mono (fun _ => id) fun _ _ _ verified ok => ?_
          intro next member
          rcases List.mem_cons.mp member with rfl | member
          · exact verified₁ rfl
          · exact verified ok next member

/-- Success was verified. -/
def Verified
    (session : FlashSession)
    (regions : List FlashRegion)
    (result : FlashResult × EraseState)
    (target : FlashTarget) : Prop :=
  result.1 = .ok () → ∀ region ∈ regions,
    crc32 (readBytes session.swapActive target.cells region.address region.length) =
      crc32 region.data

theorem holds_anything {program : Run α} {device : Device Op Reply σ} {state : σ} :
    program.Holds device (fun _ => True) (fun _ _ => True) state :=
  Program.holds_of_steps (fun _ _ _ _ _ _ => trivial) program trivial

theorem holds_applySectors_verified (sectors : List Word) :
    (applySectors session regions sectors).Holds (FlashTarget.device session.swapActive)
      (fun _ => True) (Verified session regions) target := by
  refine holds_anything.bind fun kept target₁ _ _ => ?_
  refine holds_anything.bind fun result target₂ _ _ => ?_
  obtain ⟨result, state⟩ := result
  refine holds_anything.bind fun _ target₃ _ _ => ?_
  cases result with
  | error fault => exact ⟨trivial, fun impossible => nomatch impossible⟩
  | ok _ =>
      have verifies := holds_verifyRegions session target₃.cells rfl regions
      refine Program.Holds.bind (verifies.mono (fun _ _ => trivial)
        fun _ _ same verified => And.intro same verified) fun result target₄ _ facts => ?_
      obtain ⟨same, verified⟩ := facts
      refine ⟨trivial, fun ok region member => ?_⟩
      rw [same]
      exact verified ok region member

theorem holds_tricoreFlashApply_verified :
    (tricoreFlashApply session regions).Holds (FlashTarget.device session.swapActive)
      (fun _ => True) (Verified session regions) target := by
  have refuses (fault : FlashFault) :
      (safeShutdown session >>= fun _ => Program.done (Except.error fault, session.eraseState) :
        Run (FlashResult × EraseState)).Holds (FlashTarget.device session.swapActive) (fun _ => True)
          (Verified session regions) target :=
    holds_anything.bind fun _ _ _ _ => ⟨trivial, fun impossible => nomatch impossible⟩
  unfold tricoreFlashApply
  split
  · exact ⟨trivial, fun impossible => nomatch impossible⟩
  · split
    · exact refuses _
    · extract_lets sectors
      split
      · exact refuses _
      · exact holds_applySectors_verified sectors

/-- Bytes that are read as the image are the image's. -/
theorem reads_of_readBytes
    (same : readBytes session.swapActive target.cells region.address region.length =
      region.data)
    (inRegion : index < region.length) :
    target.reads session (region.address + index) = region.data.getD index 0 := by
  have found := congrArg (·.getD index 0) same
  simp only [readBytes, List.getD_eq_getElem?_getD, List.getElem?_map,
    List.getElem?_range inRegion] at found
  rw [List.getD_eq_getElem?_getD]
  exact found

theorem faithful_start (noLog : target.log = []) : Faithful target.cells target := by
  have unknown (slot current : Nat) : Follows target.log slot current := by
    intro value seen
    rw [noLog] at seen
    exact nomatch seen
  exact ⟨unknown _ _, unknown _ _, fun _ _ => rfl⟩

/-- A successful apply leaves the image in the regions, every sector that no
region touches as it was, and every touched sector that was not erased. -/
theorem apply_leaves_image
    (session : FlashSession)
    (placed : WellPlaced regions)
    (noLog : target.log = [])
    (returns : (tricoreFlashApply session regions).Returns (FlashTarget.device session.swapActive) target
      (.ok (), state) last)
    (noCollision : NoCollision session regions last.cells) :
    (∀ region ∈ regions, ∀ index, index < region.length →
      last.reads session (region.address + index) = region.data.getD index 0) ∧
    (∀ sector, sector % flashSector = 0 → Uncached sector →
      (∀ region ∈ regions, ¬Touches region sector) → ∀ offset, offset < flashSector →
        last.reads session (sector + offset) = target.reads session (sector + offset)) ∧
    (∀ sector, sector % flashSector = 0 → Uncached sector →
      (∃ region ∈ regions, Touches region sector) → ¬SectorErased session last.log sector →
        ∀ offset, offset < flashSector →
          last.reads session (sector + offset) = target.reads session (sector + offset)) := by
  have permitted : AllPermitted session regions last.log := by
    have logged := returns.map FlashTarget.log (fun _ _ _ _ step => FlashTarget.device_logging step)
    rw [noLog] at logged
    exact (holds_tricoreFlashApply placed).of_reaches logged.reaches
  have start := faithful_start noLog
  have faithful : Faithful target.cells last :=
    ((Program.holds_of_steps Faithful.step _ start).of_returns returns).1
  refine ⟨?_, ?_, ?_⟩
  · intro region member index inRegion
    have verified := (holds_tricoreFlashApply_verified.of_returns returns).2 rfl region member
    exact reads_of_readBytes (noCollision region member verified) inRegion
  · intro sector aligned uncached untouched offset inSector
    refine unchanged_of_not_sectorErased permitted faithful (fun erased => ?_) inSector
    obtain ⟨region, member, touches⟩ :=
      touched_of_sectorErased permitted aligned uncached erased
    exact untouched region member touches
  · intro sector _ _ _ notErased offset inSector
    exact unchanged_of_not_sectorErased permitted faithful notErased inSector

namespace FlashTarget

/-- Unknown contents. -/
def unknown : FlashTarget := ⟨fun _ => 0xA5, 0, 0, [], []⟩

/-- After the apply. -/
def finished : FlashTarget :=
  unknown.run (applySectors plainSession pairRegions [0xA0000000, 0xA0008000])

end FlashTarget

theorem returns_finished :
    (tricoreFlashApply plainSession pairRegions).Returns FlashTarget.obeying
      .unknown (.ok (), ⟨true, 0⟩) .finished := by
  rw [tricoreFlashApply_pairRegions (by decide)]
  exact FlashTarget.returns_obeying (by decide +kernel)

theorem noCollision_finished :
    NoCollision plainSession pairRegions FlashTarget.finished.cells := by
  intro region member
  have same : ∀ region ∈ pairRegions, readBytes plainSession.swapActive
      FlashTarget.finished.cells region.address region.length = region.data := by
    decide +kernel
  exact fun _ => same region member

/-- The first and the third sector are erased and the regions written; the second sector is
as it was. -/
theorem apply_leaves_image_pair :
    FlashTarget.finished.reads plainSession (0xA0008000 + 1) = 0x56 ∧
      FlashTarget.finished.reads plainSession (0xA0004000 + 5) = 0xA5 := by
  have returns : (tricoreFlashApply plainSession pairRegions).Returns
      (FlashTarget.device plainSession.swapActive) .unknown (.ok (), ⟨true, 0⟩) .finished :=
    returns_finished.map id fun _ _ _ _ step => FlashTarget.device_of_obeying step
  obtain ⟨image, untouched, -⟩ := apply_leaves_image plainSession wellPlaced_pairRegions rfl
    returns noCollision_finished
  have second : ⟨0xA0008000, [0x34, 0x56]⟩ ∈ pairRegions :=
    List.mem_cons_of_mem _ (List.mem_singleton_self _)
  refine ⟨image _ second 1 (by decide), ?_⟩
  have apart : ∀ region ∈ pairRegions, ¬Touches region 0xA0004000 :=
    List.forall_mem_cons.mpr ⟨fun touches => absurd touches.2 (by decide),
      List.forall_mem_singleton.mpr fun touches => absurd touches.1 (by decide)⟩
  exact untouched 0xA0004000 (by decide) (uncached_iff.mpr (Or.inr (by decide))) apart 5 (by decide)

end Flash
end TriCoreDap
