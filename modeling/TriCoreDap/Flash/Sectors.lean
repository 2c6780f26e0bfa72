import TriCoreDap.Flash.Apply
import Mathlib.Data.List.Nodup

/-!
# The sectors of an image

What the list of sectors holds once it was collected, sorted and not refused:
distinct sectors in ascending order, each touched by a region, each with all of
its command addresses in populated program flash.
-/

namespace TriCoreDap
namespace Flash

/-- The region and the sector overlap. -/
def Touches (region : FlashRegion) (sector : Nat) : Prop :=
  region.address < sector + flashSector ∧ sector < region.address + region.length

/-- The address is one of the region's bytes. -/
def FlashRegion.Holds (region : FlashRegion) (address : Nat) : Prop :=
  region.address ≤ address ∧ address < region.address + region.length

/-- A region with bytes touches the sectors in which it has some. -/
theorem touches_iff (nonempty : region.data ≠ []) (sector : Nat) :
    Touches region sector ↔
      ∃ address, region.Holds address ∧ sector ≤ address ∧ address < sector + flashSector := by
  have positive : 0 < region.length := List.length_pos_iff.mpr nonempty
  constructor
  · intro touches
    refine ⟨max region.address sector, ⟨?_, ?_⟩, ?_, ?_⟩ <;>
      simp only [Touches, flashSector] at * <;> omega
  · rintro ⟨address, ⟨above, below⟩, inSector, beforeNext⟩
    exact ⟨by omega, by omega⟩

/-- Disjoint regions of the address space with page-aligned uncached starts. -/
structure WellPlaced (regions : List FlashRegion) : Prop where
  start : ∀ region ∈ regions, region.address < 2 ^ 32
  fits : ∀ region ∈ regions, region.address + region.length ≤ 2 ^ 32
  aligned : ∀ region ∈ regions, region.address % flashPage = 0
  uncached : ∀ region ∈ regions, Uncached region.address
  disjoint : regions.Pairwise fun left right =>
    ∀ address, left.Holds address → ¬right.Holds address

/-- Sectors in ascending order that commands may go to. -/
structure Accepted
    (session : FlashSession)
    (regions : List FlashRegion)
    (sectors : List Word) : Prop where
  ascending : sectors.Pairwise (· < ·)
  programmable : ∀ sector ∈ sectors, Programmable session.chipid session.swapActive sector
  touched : ∀ sector ∈ sectors, ∃ region ∈ regions, Touches region sector

variable {session : FlashSession} {regions : List FlashRegion}
  {sectors found : List Word} {address stop start : Nat}

/-- The last sector of the address space, after which the loop wraps. -/
def lastSector : Nat := 2 ^ 32 - flashSector

theorem next_sector
    (aligned : address % flashSector = 0)
    (word : address < 2 ^ 32) :
    u32 (address + flashSector) % flashSector = 0 ∧ u32 (address + flashSector) < 2 ^ 32 ∧
      (address = lastSector ∨ u32 (address + flashSector) = address + flashSector) := by
  simp only [u32, lastSector, flashSector] at *
  omega

theorem subset_of_collectRegion
    (collected : collectRegion fuel address stop sectors = some found) :
    sectors ⊆ found := by
  induction fuel generalizing address sectors with
  | zero => exact (Option.some.inj collected) ▸ List.Subset.refl _
  | succ fuel inductionHypothesis =>
      rw [collectRegion] at collected
      split at collected
      · split at collected
        · exact inductionHypothesis collected
        · split at collected
          · exact nomatch collected
          · exact List.Subset.trans (List.subset_append_left _ _) (inductionHypothesis collected)
      · exact (Option.some.inj collected) ▸ List.Subset.refl _

/-- The first sector of a region is found. -/
theorem first_mem_of_collectRegion
    (collected : collectRegion (fuel + 1) address stop sectors = some found)
    (before : address < stop) : address ∈ found := by
  rw [collectRegion, if_pos before] at collected
  split at collected
  · next seen => exact subset_of_collectRegion collected seen
  · split at collected
    · exact nomatch collected
    · exact subset_of_collectRegion collected (by simp)

/-- Every new sector is aligned, before the end, and after the start unless the
loop went through the end of the address space. -/
theorem mem_of_collectRegion
    (collected : collectRegion fuel address stop sectors = some found)
    (aligned : address % flashSector = 0)
    (word : address < 2 ^ 32)
    (after : start ≤ address ∨ lastSector ∈ sectors) :
    ∀ sector ∈ found, sector ∈ sectors ∨
      sector % flashSector = 0 ∧ sector < stop ∧ (start ≤ sector ∨ lastSector ∈ found) := by
  induction fuel generalizing address sectors with
  | zero => exact (Option.some.inj collected) ▸ fun sector member => Or.inl member
  | succ fuel inductionHypothesis =>
      obtain ⟨alignedNext, wordNext, wraps⟩ := next_sector aligned word
      have afterNext (sectors' : List Word) (subset : sectors ⊆ sectors')
          (seen : address ∈ sectors') :
          start ≤ u32 (address + flashSector) ∨ lastSector ∈ sectors' := by
        rcases after with after | last
        · rcases wraps with rfl | next
          · exact Or.inr seen
          · exact Or.inl (by omega)
        · exact Or.inr (subset last)
      rw [collectRegion] at collected
      split at collected
      · next before =>
          split at collected
          · next seen =>
              exact inductionHypothesis collected alignedNext wordNext
                (afterNext _ (List.Subset.refl _) seen)
          · split at collected
            · exact nomatch collected
            · intro sector member
              have later := inductionHypothesis collected alignedNext wordNext
                (afterNext _ (List.subset_append_left _ _) (by simp)) sector member
              rcases later with old | new
              · rcases List.mem_append.mp old with old | same
                · exact Or.inl old
                · obtain rfl := List.mem_singleton.mp same
                  refine Or.inr ⟨aligned, before, after.imp id fun last => ?_⟩
                  exact subset_of_collectRegion collected (List.mem_append_left _ last)
              · exact Or.inr new
      · exact (Option.some.inj collected) ▸ fun sector member => Or.inl member

theorem nodup_of_collectRegion
    (collected : collectRegion fuel address stop sectors = some found)
    (nodup : sectors.Nodup) : found.Nodup := by
  induction fuel generalizing address sectors with
  | zero => exact (Option.some.inj collected) ▸ nodup
  | succ fuel inductionHypothesis =>
      rw [collectRegion] at collected
      split at collected
      · split at collected
        · exact inductionHypothesis collected nodup
        · next unseen =>
            split at collected
            · exact nomatch collected
            · refine inductionHypothesis collected (List.nodup_append.mpr ⟨nodup, ?_, ?_⟩)
              · exact List.nodup_singleton _
              · rintro sector member _ new rfl
                exact unseen (List.mem_singleton.mp new ▸ member)
      · exact (Option.some.inj collected) ▸ nodup

/-- Where a sector of the list comes from. -/
def Origin (regions : List FlashRegion) (found : List Word) (sector : Word) : Prop :=
  ∃ region ∈ regions, alignDown region.address flashSector ∈ found ∧
    sector % flashSector = 0 ∧ sector < region.stop ∧
      (alignDown region.address flashSector ≤ sector ∨ lastSector ∈ found)

theorem Origin.mono
    {found' : List Word}
    (origin : Origin regions found sector)
    (subset : found ⊆ found') : Origin regions found' sector := by
  obtain ⟨region, member, first, aligned, before, after⟩ := origin
  exact ⟨region, member, subset first, aligned, before, after.imp id fun last => subset last⟩

theorem alignDown_sector (address : Nat) :
    alignDown address flashSector % flashSector = 0 ∧
      alignDown address flashSector ≤ address ∧
        address < alignDown address flashSector + flashSector := by
  simp only [alignDown, flashSector]
  omega

/-- One region adds sectors that come from it. -/
theorem origin_of_collectRegion
    (region : FlashRegion)
    (word : region.address < 2 ^ 32)
    (collected : collectRegion (2 ^ 32 / flashSector)
      (alignDown region.address flashSector) region.stop sectors = some found) :
    ∀ sector ∈ found, sector ∈ sectors ∨ Origin [region] found sector := by
  obtain ⟨aligned, below, -⟩ := alignDown_sector region.address
  have fuel_eq : 2 ^ 32 / flashSector = 2 ^ 18 - 1 + 1 := by decide
  intro sector member
  by_cases before : alignDown region.address flashSector < region.stop
  · have first := first_mem_of_collectRegion (fuel_eq ▸ collected) before
    refine (mem_of_collectRegion collected aligned (by omega) (Or.inl (Nat.le_refl _)) sector
      member).imp id fun new => ?_
    exact ⟨region, List.mem_singleton_self _, first, new.1, new.2.1, new.2.2⟩
  · rw [fuel_eq, collectRegion, if_neg before] at collected
    exact Or.inl ((Option.some.inj collected) ▸ member)

theorem subset_of_collectSectors
    (collected : collectSectors regions sectors = some found) : sectors ⊆ found := by
  induction regions generalizing sectors with
  | nil => exact (Option.some.inj collected) ▸ List.Subset.refl _
  | cons region rest inductionHypothesis =>
      rw [collectSectors] at collected
      split at collected
      · exact nomatch collected
      · next some_eq =>
          exact List.Subset.trans (subset_of_collectRegion some_eq)
            (inductionHypothesis collected)

theorem nodup_of_collectSectors
    (collected : collectSectors regions sectors = some found)
    (nodup : sectors.Nodup) : found.Nodup := by
  induction regions generalizing sectors with
  | nil => exact (Option.some.inj collected) ▸ nodup
  | cons region rest inductionHypothesis =>
      rw [collectSectors] at collected
      split at collected
      · exact nomatch collected
      · next some_eq =>
          exact inductionHypothesis collected (nodup_of_collectRegion some_eq nodup)

theorem origin_of_collectSectors
    (words : ∀ region ∈ regions, region.address < 2 ^ 32)
    (collected : collectSectors regions sectors = some found) :
    ∀ sector ∈ found, sector ∈ sectors ∨ Origin regions found sector := by
  induction regions generalizing sectors with
  | nil => exact (Option.some.inj collected) ▸ fun sector member => Or.inl member
  | cons region rest inductionHypothesis =>
      rw [collectSectors] at collected
      split at collected
      · exact nomatch collected
      · next some_eq =>
          intro sector member
          have later := inductionHypothesis
            (fun next inRest => words next (List.mem_cons_of_mem _ inRest)) collected
          rcases later sector member with early | ⟨source, inRest, others⟩
          · refine (origin_of_collectRegion region (words region List.mem_cons_self) some_eq
              sector early).imp id fun origin => ?_
            obtain ⟨source, isRegion, others⟩ :=
              origin.mono (subset_of_collectSectors collected)
            exact ⟨source, List.mem_singleton.mp isRegion ▸ List.mem_cons_self, others⟩
          · exact Or.inr ⟨source, List.mem_cons_of_mem _ inRest, others⟩

/-- The first sector of an uncached region is not cached. -/
theorem uncached_alignDown (uncached : Uncached address) :
    Uncached (alignDown address flashSector) := by
  rw [uncached_iff] at *
  obtain ⟨aligned, below, above⟩ := alignDown_sector address
  simp only [flashSector] at *
  omega

/-- Sectors that were collected, sorted and not refused. -/
theorem accepted_of_collectSectors
    (placed : WellPlaced regions)
    (collected : collectSectors regions [] = some found)
    (notRefused : found.mergeSort.find? (fun sector =>
      !isProgramFlash session.layout (session.command sector)) = none) :
    Accepted session regions found.mergeSort := by
  have origins : ∀ sector ∈ found, Origin regions found sector := fun sector member =>
    (origin_of_collectSectors placed.start collected sector member).resolve_left
      List.not_mem_nil
  have populated : ∀ sector ∈ found, Uncached sector →
      Populated (flashLayout session.chipid) (session.command sector) := by
    intro sector member uncached
    have notFound := List.find?_eq_none.mp notRefused sector (List.mem_mergeSort.mpr member)
    rw [Bool.not_eq_true', Bool.not_eq_false] at notFound
    exact (isProgramFlash_iff (uncached_commandAddress _ uncached)).mp notFound
  have notLast : lastSector ∉ found := by
    intro member
    have uncached : Uncached lastSector := uncached_iff.mpr (Or.inr (by decide))
    have programmable : Programmable session.chipid session.swapActive lastSector :=
      ⟨by decide, uncached, populated _ member uncached⟩
    exact absurd programmable.sector_bounds.2 (by decide)
  have fromRegion : ∀ sector ∈ found,
      Programmable session.chipid session.swapActive sector ∧
        ∃ region ∈ regions, Touches region sector := by
    intro sector member
    obtain ⟨region, inRegions, first, aligned, before, after⟩ := origins sector member
    have after := after.resolve_right notLast
    have uncachedFirst := uncached_alignDown (placed.uncached region inRegions)
    obtain ⟨alignedFirst, -, above⟩ := alignDown_sector region.address
    have programmableFirst : Programmable session.chipid session.swapActive
        (alignDown region.address flashSector) :=
      ⟨alignedFirst, uncachedFirst, populated _ first uncachedFirst⟩
    have firstBounds := programmableFirst.sector_bounds
    have uncached : Uncached sector := uncached_iff.mpr (Or.inr (by omega))
    refine ⟨⟨aligned, uncached, populated sector member uncached⟩, region, inRegions, ?_, ?_⟩
    · omega
    · exact Nat.lt_of_lt_of_le before (Nat.mod_le _ _)
  constructor
  · have sorted : found.mergeSort.Pairwise fun left right => decide (left ≤ right) = true := by
      apply List.pairwise_mergeSort
      · intro first second third
        simp only [decide_eq_true_eq]
        exact Nat.le_trans
      · intro first second
        simp only [Bool.or_eq_true, decide_eq_true_eq]
        exact Nat.le_total first second
    have nodup : found.mergeSort.Nodup := (List.mergeSort_perm found _).nodup_iff.mpr
      (nodup_of_collectSectors collected List.nodup_nil)
    refine (sorted.and nodup).imp fun both => ?_
    exact Nat.lt_of_le_of_ne (of_decide_eq_true both.1) both.2
  · exact fun sector member => (fromRegion sector (List.mem_mergeSort.mp member)).1
  · exact fun sector member => (fromRegion sector (List.mem_mergeSort.mp member)).2

end Flash
end TriCoreDap
