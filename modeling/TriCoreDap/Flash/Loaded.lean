import TriCoreDap.Flash.Load

/-!
# What a load leaves

A load that succeeds on a target that shows its errors leaves every sector as the requests
ask for it, in whatever order and by whichever alias they came.
-/

namespace TriCoreDap
namespace Flash

open Probe

variable {session : FlashSession} {target last : HonestTarget} {entries : List LoadSector}
  {entry : LoadSector} {region : FlashRegion} {data : List Byte} {sector address : Nat}

/-! ## What is done at the end -/

theorem sorted_sortLoad {load : List LoadSector} (collected : Collected load) :
    Sorted (sortLoad load) := by
  have perm : (sortLoad load).Perm load := List.mergeSort_perm _ _
  have ordered : (sortLoad load).Pairwise fun left right =>
      decide (left.address ≤ right.address) = true := by
    refine List.pairwise_mergeSort (fun first second third before after => ?_)
      (fun left right => ?_) load
    · exact decide_eq_true (Nat.le_trans (of_decide_eq_true before) (of_decide_eq_true after))
    · simp [Nat.le_total left.address right.address]
  have distinct : (sortLoad load).Pairwise fun left right => left.address ≠ right.address :=
    List.pairwise_map.mp ((perm.map LoadSector.address).nodup_iff.mpr collected.distinct)
  refine ⟨(ordered.and distinct).imp fun both => ?_, fun entry member => ?_,
    fun entry member => ?_, fun entry member => ?_⟩
  · exact Nat.lt_of_le_of_ne (of_decide_eq_true both.1) both.2
  · exact collected.aligned entry (perm.mem_iff.mp member)
  · exact collected.window entry (perm.mem_iff.mp member)
  · exact collected.sized entry (perm.mem_iff.mp member)

/-- What a load that succeeds has done. -/
theorem loadApply_cases
    {device : Device Op Reply σ}
    {first last : σ}
    {tables : Bool}
    {grants : Nat → Bool}
    {load : List LoadSector}
    (returns : (loadApply session tables grants load).Returns device first true last) :
    load = [] ∧ last = first ∨ ∃ errsr regions middle,
      (loadRuns session grants (sortLoad load) session.eraseState.errsr []).Returns device first
        (true, errsr, regions) middle ∧
      (regions = [] ∧ last = middle ∨ ∃ state,
        (tricoreFlashApply (session.loading errsr) regions).Returns device middle (.ok (), state)
          last) := by
  unfold loadApply at returns
  split at returns
  · next empty => exact Or.inl ⟨empty, (Program.eq_of_returns_done returns).2⟩
  · split at returns
    · obtain ⟨impossible, -⟩ := Program.eq_of_returns_done returns
      cases impossible
    · obtain ⟨⟨ok, errsr, regions⟩, middle, runs, returns⟩ :=
        Program.exists_returns_of_bind returns
      simp only at returns
      split at returns
      · next both =>
          obtain ⟨rfl, -⟩ := both
          obtain ⟨⟨result, state⟩, applied, applies, returns⟩ :=
            Program.exists_returns_of_bind returns
          cases result with
          | error fault =>
              obtain ⟨impossible, -⟩ := Program.eq_of_returns_done returns
              cases impossible
          | ok _ =>
              obtain ⟨-, rfl⟩ := Program.eq_of_returns_done returns
              exact Or.inr ⟨errsr, regions, middle, runs, Or.inr ⟨state, applies⟩⟩
      · next notBoth =>
          obtain ⟨rfl, rfl⟩ := Program.eq_of_returns_done returns
          have none : regions = [] := by
            by_contra nonempty
            exact notBoth ⟨rfl, nonempty⟩
          exact Or.inr ⟨errsr, regions, last, runs, Or.inl ⟨none, rfl⟩⟩

/-- The cells of a sector are read at its addresses. -/
theorem inSector_command_iff
    (aligned : sector % flashSector = 0)
    (window : InWindow sector)
    (uncached : Uncached address) :
    InSector session sector (session.command address) ↔
      sector ≤ address ∧ address < sector + flashSector := by
  have uncachedSector : Uncached sector :=
    uncached_iff.mpr (Or.inr (Nat.le_trans (by decide) window.1))
  obtain ⟨above, below⟩ := window
  rw [InSector, FlashSession.command, FlashSession.command]
  cases session.swapActive with
  | false =>
      rw [commandAddress_false uncached, commandAddress_false uncachedSector]
  | true =>
      have moved := commandAddress_true uncached
      have movedSector := commandAddress_true uncachedSector
      generalize commandAddress true address = command at *
      generalize commandAddress true sector = start at *
      simp only [pflashBase, pflashWindow, flashSector] at *
      omega

/-- An entry with data accounts for every sector that a region touches. -/
theorem Carries.entry_of_touches
    {regions : List FlashRegion}
    (carries : Carries entries regions)
    (sorted : Sorted entries)
    (aligned : sector % flashSector = 0)
    (member : region ∈ regions)
    (touches : Touches region sector) :
    ∃ entry ∈ entries, entry.address = sector ∧ entry.data ≠ none := by
  have alignedRegion := carries.aligned region member
  obtain ⟨above, below⟩ := touches
  have holds : region.Holds sector := by
    refine ⟨?_, below⟩
    simp only [flashSector] at *
    omega
  obtain ⟨entry, isEntry, stored, start, stop⟩ := carries.only region member sector holds
  have alignedEntry := sorted.aligned entry isEntry
  refine ⟨entry, isEntry, ?_, stored⟩
  simp only [flashSector] at *
  omega

/-- The entry of a sector says what is done to it. -/
theorem Collected.staged_of_mem
    {load : List LoadSector}
    (collected : Collected load)
    (member : entry ∈ load) : staged load entry.address = entry.stage := by
  obtain ⟨before, after, rfl⟩ := List.append_of_mem member
  have distinct := collected.distinct
  rw [List.map_append, List.map_cons, List.nodup_append] at distinct
  have apart : ∀ other ∈ before, other.address ≠ entry.address := fun other inBefore =>
    distinct.2.2 _ (List.mem_map_of_mem inBefore) _ List.mem_cons_self
  rw [staged_eq apart, if_pos rfl]

theorem entry_of_staged
    {load : List LoadSector}
    (touched : staged load sector ≠ .untouched) :
    ∃ entry ∈ load, entry.address = sector ∧ entry.stage = staged load sector := by
  unfold staged at touched ⊢
  split at touched
  · exact absurd rfl touched
  · next entry found =>
      have same := List.find?_some found
      exact ⟨entry, List.mem_of_find?_eq_some found, of_decide_eq_true same, rfl⟩

/-- What the apply at the end of a load leaves. -/
structure Applied
    (session : FlashSession)
    (regions : List FlashRegion)
    (before after : Nat → Byte) : Prop where
  image : ∀ region ∈ regions,
    crc32 (readBytes session.swapActive after region.address region.length) = crc32 region.data
  outside : ∃ sectors, Accepted session regions sectors ∧
    ∀ command, ¬InSectors session sectors command → after command = before command

theorem applied_nil (cells : Nat → Byte) : Applied session [] cells cells where
  image _ none := absurd none List.not_mem_nil
  outside := ⟨[], ⟨List.Pairwise.nil, fun _ none => absurd none List.not_mem_nil,
    fun _ none => absurd none List.not_mem_nil⟩, fun _ _ => rfl⟩

/-- What a successful load has done to the target. -/
theorem applied_of_returns
    {tables : Bool}
    {grants : Nat → Bool}
    {load : List LoadSector}
    (collected : Collected load)
    (returns : (loadApply session tables grants load).Returns
      (HonestTarget.device session.swapActive) target true last) :
    ∃ middle, Spared session (eraseOnly (sortLoad load)) target.flash.cells middle ∧
      Blank session (eraseOnly (sortLoad load)) middle ∧
        Applied session (loadRegions (sortLoad load)) middle.flash.cells last.flash.cells := by
  rcases loadApply_cases returns with ⟨rfl, rfl⟩ | ⟨errsr, regions, middle, runs, applies⟩
  · have sorted_nil : sortLoad [] = [] := List.mergeSort_nil
    rw [sorted_nil, loadRegions]
    refine ⟨last, fun _ _ => rfl, fun command inNone => ?_, applied_nil _⟩
    obtain ⟨sector, none, -⟩ := inNone
    exact absurd none List.not_mem_nil
  · have sorted := sorted_sortLoad collected
    have carries := carries_loadRegions sorted
    obtain ⟨spared, went⟩ := (holds_loadRuns grants session.eraseState.errsr [] sorted
      fun _ _ => rfl).of_returns runs
    obtain ⟨regions_eq, blank⟩ := went rfl
    have regions_eq : regions = loadRegions (sortLoad load) := regions_eq
    refine ⟨middle, spared, blank, ?_⟩
    rw [← regions_eq] at carries ⊢
    rcases applies with ⟨rfl, rfl⟩ | ⟨state, applies⟩
    · exact applied_nil _
    · have room : ∀ region ∈ regions, region.address + region.length < 2 ^ 32 :=
        fun region member => Nat.lt_of_le_of_lt (carries.window region member).2 (by decide)
      have applies : (tricoreFlashApply (session.loading errsr) regions).Returns
          (HonestTarget.device (session.loading errsr).swapActive) middle (.ok (), state) last :=
        applies
      obtain ⟨sectors, accepted, imaged⟩ := apply_kept carries.wellPlaced room applies
      have flash := applies.map HonestTarget.flash fun _ _ _ _ step =>
        HonestTarget.device_flash step
      have verified := (holds_tricoreFlashApply_verified.of_returns flash).2 rfl
      exact ⟨verified, sectors, ⟨accepted.ascending, accepted.programmable, accepted.touched⟩,
        imaged.outside⟩

/-- The byte of a sector that is left as asked for. -/
def Stage.leaves (stage : Stage) (before : Byte) (offset : Nat) : Byte :=
  match stage with
  | .untouched => before
  | .erased => flashErased
  | .written data => data.getD offset 0

/-- A sector whose entry has no data is left by the apply. -/
theorem Applied.outside_noData
    {regions : List FlashRegion}
    {before after : Nat → Byte}
    (applied : Applied session regions before after)
    (carries : Carries entries regions)
    (sorted : Sorted entries)
    (aligned : sector % flashSector = 0)
    (uncached : Uncached sector)
    (inSector : offset < flashSector)
    (noData : ∀ entry ∈ entries, entry.address = sector → entry.data = none) :
    after (session.command (sector + offset)) = before (session.command (sector + offset)) := by
  obtain ⟨sectors, accepted, outside⟩ := applied.outside
  refine outside _ fun inSectors => ?_
  obtain ⟨found, member, inFound⟩ : ∃ found : Nat, found ∈ sectors ∧ _ := inSectors
  have programmable : Programmable session.chipid session.swapActive found :=
    accepted.programmable found member
  have bounds :=
    address_of_inSector programmable (uncached_sector aligned uncached inSector) inFound
  have alignedFound := programmable.aligned
  have same : found = sector := by
    simp only [flashSector] at *
    omega
  obtain ⟨region, isRegion, touches⟩ := accepted.touched found member
  rw [same] at touches
  obtain ⟨entry, isEntry, isSector, stored⟩ :=
    carries.entry_of_touches sorted aligned isRegion touches
  exact stored (noData entry isEntry isSector)

theorem mem_eraseOnly_iff :
    sector ∈ eraseOnly entries ↔ ∃ entry ∈ entries, entry.address = sector ∧ entry.data = none := by
  simp [eraseOnly, and_comm, and_left_comm]

/-- A sector that is erased only. -/
theorem inSectors_eraseOnly_iff
    (sorted : Sorted entries)
    (aligned : sector % flashSector = 0)
    (uncached : Uncached sector)
    (inSector : offset < flashSector) :
    InSectors session (eraseOnly entries) (session.command (sector + offset)) ↔
      ∃ entry ∈ entries, entry.address = sector ∧ entry.data = none := by
  have uncached' := uncached_sector aligned uncached inSector
  constructor
  · rintro ⟨found, member, inFound⟩
    obtain ⟨entry, isEntry, rfl, noData⟩ := mem_eraseOnly_iff.mp member
    have alignedEntry := sorted.aligned entry isEntry
    have bounds := (inSector_command_iff alignedEntry (sorted.window entry isEntry) uncached').mp
      inFound
    refine ⟨entry, isEntry, ?_, noData⟩
    simp only [flashSector] at *
    omega
  · rintro ⟨entry, isEntry, rfl, noData⟩
    refine ⟨entry.address, mem_eraseOnly_iff.mpr ⟨entry, isEntry, rfl, noData⟩, ?_⟩
    exact (inSector_command_iff aligned (sorted.window entry isEntry) uncached').mpr
      ⟨Nat.le_add_right _ _, Nat.add_lt_add_left inSector _⟩

/-- The region of an entry leaves its data. -/
theorem Applied.reads_data
    {regions : List FlashRegion}
    {before : Nat → Byte}
    (applied : Applied session regions before last.flash.cells)
    (carries : Carries entries regions)
    (noCollision : NoCollision session regions last.flash.cells)
    (member : entry ∈ entries)
    (stored : entry.data = some data)
    (inSector : offset < flashSector) :
    last.flash.reads session (entry.address + offset) = data.getD offset 0 := by
  obtain ⟨region, isRegion, start, stop, bytes⟩ := carries.covers entry member data stored
  have image := noCollision region isRegion (applied.image region isRegion)
  have inRegion : entry.address - region.address + offset < region.length := by omega
  have read := reads_of_readBytes image inRegion
  rw [show region.address + (entry.address - region.address + offset) = entry.address + offset by
    omega] at read
  rw [read, List.getD_eq_getElem?_getD, bytes offset inSector, List.getD_eq_getElem?_getD]

/-- After a load that succeeds on a target that shows its errors, every sector reads as the
requests ask for it: the last data written, blank where it was only erased, and as before
where no request covers it. -/
theorem load_done
    {requests : List (Memory × Request)}
    {load : List LoadSector}
    {tables : Bool}
    {grants : Nat → Bool}
    (whole : ∀ entry ∈ requests, entry.2.Whole)
    (collects : collect requests [] = some load)
    (returns : (loadApply session tables grants load).Returns
      (HonestTarget.device session.swapActive) target true last)
    (noCollision : NoCollision session (loadRegions (sortLoad load)) last.flash.cells)
    (aligned : sector % flashSector = 0)
    (uncached : Uncached sector)
    (inSector : offset < flashSector) :
    last.flash.reads session (sector + offset) =
      (asked (requests.map Prod.snd) sector).leaves (target.flash.reads session (sector + offset))
        offset := by
  obtain ⟨collected, staged_eq⟩ := staged_collect whole collected_nil collects
  have sorted := sorted_sortLoad collected
  have carries := carries_loadRegions sorted
  have perm : (sortLoad load).Perm load := List.mergeSort_perm _ _
  obtain ⟨middle, spared, blank, applied⟩ := applied_of_returns collected returns
  have asked_eq : asked (requests.map Prod.snd) sector = staged load sector :=
    (staged_eq sector).symm
  have stage_of : ∀ entry ∈ sortLoad load, entry.address = sector →
      entry.stage = staged load sector := by
    rintro entry member rfl
    exact (collected.staged_of_mem (perm.mem_iff.mp member)).symm
  have none_of_stage : (∀ data, staged load sector ≠ .written data) →
      ∀ entry ∈ sortLoad load, entry.address = sector → entry.data = none := by
    intro notWritten entry member isSector
    have stage_eq := stage_of entry member isSector
    rw [LoadSector.stage] at stage_eq
    cases data_eq : entry.data with
    | none => rfl
    | some data =>
        rw [data_eq] at stage_eq
        exact absurd stage_eq.symm (notWritten data)
  have inOnly_iff : InSectors session (eraseOnly (sortLoad load))
      (session.command (sector + offset)) ↔ _ :=
    inSectors_eraseOnly_iff sorted aligned uncached inSector
  rw [asked_eq]
  cases stage_eq : staged load sector with
  | untouched =>
      have noData := none_of_stage (by simp [stage_eq])
      refine (applied.outside_noData carries sorted aligned uncached inSector noData).trans ?_
      refine spared _ fun inOnly => ?_
      obtain ⟨entry, member, isSector, noData⟩ := inOnly_iff.mp inOnly
      have impossible := stage_of entry member isSector
      rw [LoadSector.stage, noData, stage_eq] at impossible
      cases impossible
  | erased =>
      have noData := none_of_stage (by simp [stage_eq])
      refine (applied.outside_noData carries sorted aligned uncached inSector noData).trans ?_
      obtain ⟨entry, member, isSector, -⟩ := entry_of_staged (by rw [stage_eq]; decide)
      have sortedMember := perm.mem_iff.mpr member
      exact blank _ (inOnly_iff.mpr
        ⟨entry, sortedMember, isSector, noData entry sortedMember isSector⟩)
  | written data =>
      have touched : staged load sector ≠ .untouched := by simp [stage_eq]
      obtain ⟨entry, member, rfl, stored⟩ := entry_of_staged touched
      rw [stage_eq, LoadSector.stage] at stored
      cases data_eq : entry.data with
      | none =>
          rw [data_eq] at stored
          cases stored
      | some found =>
          rw [data_eq] at stored
          obtain rfl := Stage.written.inj stored
          exact applied.reads_data carries noCollision (perm.mem_iff.mpr member) data_eq inSector

namespace FlashTarget

variable {target : FlashTarget}

/-- The second sector of `unknown`. -/
def sectorData : List Byte := List.replicate flashSector 0xA5

def sectorImage : FlashRegion := ⟨0xA0004000, sectorData⟩

theorem length_sectorImage : sectorImage.data.length = flashSector := List.length_replicate

/-- The target after a checksum of the sector. -/
def checked (timeoutMs : Nat) (target : FlashTarget) : FlashTarget :=
  (obey (.runLoader .checksum 0xA0004000 flashSector timeoutMs) target).2

/-- The cells of the sector hold the data. -/
def HoldsSector (target : FlashTarget) : Prop :=
  readBytes false target.cells 0xA0004000 flashSector = sectorData

theorem obeying_checksum (timeoutMs : Nat) (holds : HoldsSector target) :
    obeying (.runLoader .checksum 0xA0004000 flashSector timeoutMs) target
      (some (crc32 sectorData)) (checked timeoutMs target) := by
  rw [HoldsSector] at holds
  rw [← holds]
  rfl

theorem returns_verifySector (holds : HoldsSector target) :
    (verifyRegions [sectorImage]).Returns obeying target (.ok ())
      (checked (2000 + flashSector / 500) target) := by
  have verifies : (tricoreFlashVerify 0xA0004000 sectorData).Returns obeying target (.ok ())
      (checked (2000 + flashSector / 500) target) := by
    have length : sectorData.length = flashSector := length_sectorImage
    rw [tricoreFlashVerify, length]
    refine Program.Returns.step (obeying_checksum _ holds) ?_
    have same : (if crc32 sectorData ≠ crc32 sectorData then
        Except.error (.crcDiffers (crc32 sectorData) (crc32 sectorData)) else .ok () :
          FlashResult) = .ok () := if_neg (not_not.mpr rfl)
    show (Program.done _ : Run FlashResult).Returns _ _ _ _
    rw [same]
    exact .done
  exact verifies.bind .done

/-- Where the target's checksum is that of the bytes, the comparison finds no difference. -/
theorem returns_bytesDiffer
    {device : Device Op Reply σ}
    {first second : σ}
    {region : FlashRegion}
    {low high : Nat}
    (inside : low < high)
    (noPad : (if high = region.stop then padding high else 0) = 0)
    (step : device (.runLoader .checksum (toPhysical low) (high - low) (60 + (high - low) / 2000))
      first (some (crc32 ((region.data.drop (low - region.address)).take (high - low)))) second) :
    (bytesDiffer region low high).Returns device first false second := by
  rw [bytesDiffer, if_neg (Nat.not_le_of_lt inside)]
  extract_lets pad image expected count
  have pad_eq : pad = 0 := noPad
  have count_eq : count = high - low := by simp only [count, pad_eq, Nat.add_zero]
  have expected_eq : expected =
      crc32 ((region.data.drop (low - region.address)).take (high - low)) := by
    simp only [expected, pad_eq, image, List.replicate_zero, crc32, crc32Update, List.foldl_nil]
  rw [count_eq, expected_eq]
  refine Program.Returns.step step ?_
  generalize crc32 _ = sum
  have same : (sum != sum) = false := bne_self_eq_false sum
  show (Program.done (sum != sum) : Run Bool).Returns _ _ _ _
  rw [same]
  exact .done

theorem stop_sectorImage : sectorImage.stop = 0xA0008000 := by
  rw [FlashRegion.stop, FlashRegion.length, length_sectorImage]
  rfl

theorem returns_keepSector
    (holds : HoldsSector target)
    (differential : session.differential = true) :
    (keepSectors session [sectorImage] [0xA0004000]).Returns obeying target [(0xA0004000, false)]
      (checked (60 + flashSector / 2000) target) := by
  have differs : (regionDiffers 0xA0004000 sectorImage).Returns obeying target false
      (checked (60 + flashSector / 2000) target) := by
    have low : overlapLow 0xA0004000 sectorImage = 0xA0004000 := by decide
    have high : overlapHigh 0xA0004000 sectorImage = 0xA0008000 := by
      rw [overlapHigh, stop_sectorImage]
      rfl
    have all : (sectorImage.data.drop (0xA0004000 - sectorImage.address)).take
        (0xA0008000 - 0xA0004000) = sectorData := by
      rw [show 0xA0004000 - sectorImage.address = 0 from rfl, List.drop_zero]
      exact List.take_of_length_le (Nat.le_of_eq length_sectorImage)
    rw [regionDiffers, low, high]
    refine returns_bytesDiffer (by decide) (by rw [stop_sectorImage, if_pos rfl]; rfl) ?_
    rw [all]
    exact obeying_checksum _ holds
  have kept : (keepSector session [sectorImage] 0xA0004000).Returns obeying target false
      (checked (60 + flashSector / 2000) target) := by
    rw [keepSector, differential, if_neg (by decide)]
    exact differs.bind .done
  exact kept.bind .done

theorem returns_applySector
    (holds : HoldsSector target)
    (differential : session.differential = true)
    (programmable : isProgramFlash session.layout (session.command 0xA0004000) = true)
    (saved : session.saved = none) :
    ∃ last, (tricoreFlashApply session [sectorImage]).Returns obeying target
      (.ok (), session.eraseState) last ∧ HoldsSector last := by
  have collected : collectSectors [sectorImage] [] = some [0xA0004000] := by
    rw [collectSectors, stop_sectorImage]
    decide +kernel
  have accepted : ([0xA0004000] : List Word).find? (fun sector =>
      !isProgramFlash session.layout (session.command sector)) = none := by
    simp [programmable]
  have cleared : (safeShutdown session).Returns obeying (checked (60 + flashSector / 2000) target)
      () ((checked (60 + flashSector / 2000) target).run (safeShutdown session)) := by
    refine returns_obeying ?_
    rw [safeShutdown, saved]
    rfl
  have holds' : HoldsSector
      ((checked (60 + flashSector / 2000) target).run (safeShutdown session)) := by
    rw [safeShutdown, saved]
    exact holds
  rw [tricoreFlashApply, if_neg (List.cons_ne_nil _ _), collected]
  simp only [List.mergeSort_singleton, accepted]
  have skipped : (eraseAndProgram session [sectorImage] [(0xA0004000, false)]).Returns obeying
      (checked (60 + flashSector / 2000) target) (.ok (), session.eraseState)
      (checked (60 + flashSector / 2000) target) := by
    rw [eraseAndProgram, if_pos (by decide)]
    exact .done
  exact ⟨_, (returns_keepSector holds differential).bind (skipped.bind
    (cleared.bind ((returns_verifySector holds').bind .done))), holds'⟩

/-- An erase of the first sector, by its cached address, and a write of the second. -/
def sectorRequests : List (Memory × Request) :=
  [(⟨true, fun _ => true⟩, .erase 0x80000000 flashSector),
    (⟨true, fun _ => true⟩, .write 0xA0004000 sectorData)]

def sectorLoad : List LoadSector := [⟨0xA0000000, none⟩, ⟨0xA0004000, some sectorData⟩]

theorem sectorData_ne_nil : sectorData ≠ [] := by
  intro impossible
  have length : sectorData.length = flashSector := length_sectorImage
  rw [impossible] at length
  cases length

theorem collect_sectorRequests : collect sectorRequests [] = some sectorLoad := by
  have erased : pflashErase ⟨true, fun _ => true⟩ 0x80000000 flashSector [] =
      some [⟨0xA0000000, none⟩] := by
    decide +kernel
  have length : sectorData.length = flashSector := length_sectorImage
  have wrote : pflashWrite ⟨true, fun _ => true⟩ 0xA0004000 sectorData [⟨0xA0000000, none⟩] =
      some sectorLoad := by
    have place : loadAddress (u32 (0xA0004000 + 0)) = 0xA0004000 := by decide +kernel
    have added : loadSector ⟨true, fun _ => true⟩ (u32 (0xA0004000 + 0)) [⟨0xA0000000, none⟩] =
        some [⟨0xA0000000, none⟩, ⟨0xA0004000, none⟩] := by
      decide +kernel
    have written : LoadSector.write sectorData ⟨0xA0004000, none⟩ =
        ⟨0xA0004000, some sectorData⟩ :=
      write_of_whole length fun _ impossible => by cases impossible
    have put : writeSector true 0xA0004000 sectorData [⟨0xA0000000, none⟩, ⟨0xA0004000, none⟩] =
        some sectorLoad := by
      rw [writeSector, if_neg (by decide), writeSector, if_pos rfl, if_neg (by decide), written]
      rfl
    rw [pflashWrite, writeFrom, if_neg sectorData_ne_nil, added, place,
      List.take_of_length_le (Nat.le_of_eq length), List.drop_of_length_le (Nat.le_of_eq length)]
    simp only [put]
    rw [writeFrom, if_pos rfl]
  rw [sectorRequests, collect, Request.run, erased, Option.bind_some, collect, Request.run, wrote]
  rfl

theorem whole_sectorRequests : ∀ entry ∈ sectorRequests, entry.2.Whole := by
  have length : sectorData.length = flashSector := length_sectorImage
  intro entry member
  simp only [sectorRequests, List.mem_cons, List.not_mem_nil, or_false] at member
  rcases member with rfl | rfl
  · exact ⟨by decide, by decide, Or.inl (by decide)⟩
  · refine ⟨by decide, ?_, Or.inr ⟨by decide, ?_⟩⟩
    · rw [Request.length, length]
      rfl
    · rw [Request.length, length]
      decide

theorem sortLoad_sectorLoad : sortLoad sectorLoad = sectorLoad :=
  List.mergeSort_of_pairwise (List.pairwise_pair.mpr (by decide))

theorem loadRegions_sectorLoad : loadRegions (sortLoad sectorLoad) = [sectorImage] := by
  rw [sortLoad_sectorLoad, sectorLoad, loadRegions]
  show loadRegions [⟨0xA0004000, some sectorData⟩] = [sectorImage]
  rw [loadRegions]
  simp only [joinRun]
  rw [loadRegions]
  rfl

/-- The target after the erase of the first sector. -/
def firstErased : FlashTarget :=
  unknown.run (tricoreFlashErase plainSession 0 0xA0000000 flashSector)

theorem returns_firstErased :
    (tricoreFlashErase plainSession 0 0xA0000000 flashSector).Returns obeying unknown (.ok (), 0)
      firstErased :=
  returns_obeying (by
    rw [tricoreFlashErase, sectorsFrom_one (by decide) ⟨by decide, by decide⟩]
    decide +kernel)

theorem holdsSector_firstErased : HoldsSector firstErased := by
  rw [HoldsSector, sectorData, List.eq_replicate_iff]
  refine ⟨by rw [readBytes, List.length_map, List.length_range], fun byte member => ?_⟩
  obtain ⟨index, inside, rfl⟩ := List.mem_map.mp member
  rw [commandAddress_false (uncached_iff.mpr (Or.inr (by omega)))]
  have cells_eq : firstErased.cells = fill 0xA0000000 flashSector flashErased unknown.cells := by
    rw [firstErased, tricoreFlashErase, sectorsFrom_one (by decide) ⟨by decide, by decide⟩]
    rfl
  rw [cells_eq, fill, if_neg (by simp only [flashSector]; omega)]
  rfl

theorem returns_sectorLoad :
    ∃ last, (loadApply plainSession true (fun _ => true) sectorLoad).Returns obeying unknown true
      last ∧ HoldsSector last := by
  have runs : (loadRuns plainSession (fun _ => true) (sortLoad sectorLoad) 0 []).Returns obeying
      unknown (true, 0, [sectorImage]) firstErased := by
    rw [sortLoad_sectorLoad, sectorLoad, loadRuns]
    refine returns_firstErased.bind ?_
    show (loadRuns plainSession (fun _ => true) [⟨0xA0004000, some sectorData⟩] 0 []).Returns
      _ _ _ _
    rw [loadRuns]
    simp only [if_true, joinRun, List.nil_append]
    rw [loadRuns]
    exact .done
  have session_eq : (plainSession.loading 0).differential = true := rfl
  obtain ⟨last, applies, holds⟩ := returns_applySector holdsSector_firstErased session_eq
    (by decide) rfl
  refine ⟨last, ?_, holds⟩
  have nonempty : sectorLoad ≠ [] := List.cons_ne_nil _ _
  rw [loadApply, if_neg nonempty, if_neg (by decide)]
  refine runs.bind ?_
  simp only [ne_eq, List.cons_ne_nil, not_false_eq_true, and_self, if_true]
  exact applies.bind .done

theorem covers_sectorWrite_iff (sector : Nat) :
    (Request.write 0xA0004000 sectorData).Covers sector ↔
      sector % flashSector = 0 ∧ 0xA0004000 ≤ sector ∧ sector < 0xA0008000 := by
  have length : sectorData.length = flashSector := length_sectorImage
  rw [Request.Covers, Request.length, length]
  rfl

theorem asked_sectorRequests (sector : Nat) :
    asked (sectorRequests.map Prod.snd) sector =
      (Request.write 0xA0004000 sectorData).stage sector
        ((Request.erase 0x80000000 flashSector).stage sector .untouched) := rfl

theorem asked_first : asked (sectorRequests.map Prod.snd) 0xA0000000 = .erased := by
  have erased : (Request.erase 0x80000000 flashSector).stage 0xA0000000 .untouched = .erased := by
    decide
  rw [asked_sectorRequests, erased, Request.stage, if_neg]
  rw [covers_sectorWrite_iff]
  decide

theorem asked_second : asked (sectorRequests.map Prod.snd) 0xA0004000 = .written sectorData := by
  have all : (sectorData.drop (0xA0004000 - toPhysical 0xA0004000)).take flashSector =
      sectorData := by
    rw [show 0xA0004000 - toPhysical 0xA0004000 = 0 from rfl, List.drop_zero]
    exact List.take_of_length_le (Nat.le_of_eq length_sectorImage)
  rw [asked_sectorRequests]
  generalize (Request.erase 0x80000000 flashSector).stage 0xA0004000 .untouched = stage
  rw [Request.stage, if_pos ((covers_sectorWrite_iff _).mpr (by decide))]
  simp only [all]

end FlashTarget

/-- The first sector is erased and the second holds the data. -/
theorem load_done_sectors : ∃ last : HonestTarget,
      (loadApply plainSession true (fun _ => true) FlashTarget.sectorLoad).Returns
        (HonestTarget.device false) ⟨.unknown, false⟩ true last ∧
      last.flash.reads plainSession (0xA0000000 + 16) = flashErased ∧
      last.flash.reads plainSession (0xA0004000 + 16) = 0xA5 := by
  obtain ⟨last, returns, holds⟩ := FlashTarget.returns_sectorLoad
  have returns : (loadApply plainSession true (fun _ => true) FlashTarget.sectorLoad).Returns
      (HonestTarget.device false) ⟨.unknown, false⟩ true ⟨last, false⟩ :=
    returns.map (fun target => HonestTarget.mk target false) fun op _ reply _ step =>
      FlashTarget.honest_of_obeying op reply step
  have noCollision : NoCollision plainSession (loadRegions (sortLoad FlashTarget.sectorLoad))
      last.cells := by
    rw [FlashTarget.loadRegions_sectorLoad]
    refine List.forall_mem_singleton.mpr fun _ => ?_
    have length : FlashTarget.sectorImage.length = flashSector := FlashTarget.length_sectorImage
    rw [length]
    exact holds
  have done {sector : Nat} (aligned : sector % flashSector = 0) (uncached : Uncached sector) :
      (HonestTarget.mk last false).flash.reads plainSession (sector + 16) =
        (asked (FlashTarget.sectorRequests.map Prod.snd) sector).leaves
          ((HonestTarget.mk FlashTarget.unknown false).flash.reads plainSession (sector + 16)) 16 :=
    load_done FlashTarget.whole_sectorRequests FlashTarget.collect_sectorRequests returns
      noCollision aligned uncached (by decide)
  refine ⟨_, returns, ?_, ?_⟩
  · rw [done (by decide) (uncached_iff.mpr (Or.inr (by decide))), FlashTarget.asked_first]
    rfl
  · rw [done (by decide) (uncached_iff.mpr (Or.inr (by decide))), FlashTarget.asked_second]
    show FlashTarget.sectorData.getD 16 0 = 0xA5
    rw [FlashTarget.sectorData, List.getD_eq_getElem?_getD, List.getElem?_replicate]
    rfl

end Flash
end TriCoreDap
