import TriCoreDap.Flash.Cells
import TriCoreDap.Flash.Staging

/-!
# The load that is done

`load_apply` erases the sectors that GDB only erased and applies the others as regions of
consecutive sectors.
-/

namespace TriCoreDap
namespace Flash

open Probe

/-! ## Erasing on request -/

/-- The sectors from one that begins at `address`. -/
def sectorsFrom : (fuel address stop : Nat) → List Word
  | 0, _, _ => []
  | fuel + 1, address, stop =>
      if address < stop then address :: sectorsFrom fuel (u32 (address + flashSector)) stop
      else []

/-- One command a sector, until one fails, with the latched error. -/
def eraseEach (swapActive : Bool) (errsr : Word) : List Word → Run (FlashResult × Word)
  | [] => .done (.ok (), errsr)
  | sector :: rest => do
      let (erased, errsr) ← eraseRange swapActive sector 1 errsr
      if erased then eraseEach swapActive errsr rest
      else return (.error (.eraseFailed sector errsr), errsr)

/-- `tricore_flash_erase`. -/
@[irreducible]
def tricoreFlashErase
    (session : FlashSession)
    (errsr : Word)
    (address length : Nat) : Run (FlashResult × Word) :=
  let sectors := sectorsFrom (2 ^ 32 / flashSector) (alignDown address flashSector)
    (u32 (address + length))
  match sectors.find? fun sector =>
      !isProgramFlash session.layout (session.command sector) with
  | some sector => .done (.error (.notErasable sector), errsr)
  | none => eraseEach session.swapActive errsr sectors

/-! ## The regions of a load -/

/-- A run of entries with data, joined to the data of its first. -/
def joinRun : (last : Nat) → List Byte → List LoadSector → List Byte × List LoadSector
  | _, data, [] => (data, [])
  | last, data, entry :: rest =>
      match entry.data with
      | none => (data, entry :: rest)
      | some more =>
          if entry.address = u32 (last + flashSector) then
            joinRun entry.address (data ++ more) rest
          else (data, entry :: rest)

theorem length_joinRun (last : Nat) (data : List Byte) (entries : List LoadSector) :
    (joinRun last data entries).2.length ≤ entries.length := by
  induction entries generalizing last data with
  | nil => exact Nat.le_refl _
  | cons entry rest inductionHypothesis =>
      rw [joinRun]
      split
      · exact Nat.le_refl _
      · split
        · exact Nat.le_trans (inductionHypothesis _ _) (Nat.le_succ _)
        · exact Nat.le_refl _

/-- The loop of `load_apply` over the sorted entries: whether it went through, the latched
error, and the regions. -/
def loadRuns
    (session : FlashSession)
    (grants : Nat → Bool) :
    List LoadSector → Word → List FlashRegion → Run (Bool × Word × List FlashRegion)
  | [], errsr, regions => .done (true, errsr, regions)
  | entry :: rest, errsr, regions =>
      match entry.data with
      | none => do
          match ← tricoreFlashErase session errsr entry.address flashSector with
          | (.ok (), errsr) => loadRuns session grants rest errsr regions
          | (.error _, errsr) => return (false, errsr, regions)
      | some data =>
          if grants regions.length then
            loadRuns session grants (joinRun entry.address data rest).2 errsr
              (regions ++ [⟨entry.address, (joinRun entry.address data rest).1⟩])
          else .done (false, errsr, regions)
  termination_by entries => entries.length
  decreasing_by
    · exact Nat.lt_succ_self _
    · exact Nat.lt_succ_of_le (length_joinRun _ _ _)

/-- The session of the apply at the end of a load. -/
def FlashSession.loading (session : FlashSession) (errsr : Word) : FlashSession :=
  { session with differential := true, eraseState := ⟨session.eraseState.multiErase, errsr⟩ }

/-- The `qsort` of a load, by `cmp_sector`. -/
def sortLoad (load : List LoadSector) : List LoadSector :=
  load.mergeSort fun left right => left.address ≤ right.address

/-- `load_apply`; `tables` and `grants` are what the allocator answers. -/
def loadApply
    (session : FlashSession)
    (tables : Bool)
    (grants : Nat → Bool)
    (load : List LoadSector) : Run Bool :=
  if load = [] then .done true
  else if !tables then .done false
  else do
    let (ok, errsr, regions) ←
      loadRuns session grants (sortLoad load) session.eraseState.errsr []
    if ok ∧ regions ≠ [] then
      match ← tricoreFlashApply (session.loading errsr) regions with
      | (.ok (), _) => return true
      | (.error _, _) => return false
    else return ok

/-! ## What the regions hold -/

/-- The regions of sorted entries. -/
def loadRegions : List LoadSector → List FlashRegion
  | [] => []
  | entry :: rest =>
      match entry.data with
      | none => loadRegions rest
      | some data =>
          ⟨entry.address, (joinRun entry.address data rest).1⟩ ::
            loadRegions (joinRun entry.address data rest).2
  termination_by entries => entries.length
  decreasing_by
    · exact Nat.lt_succ_self _
    · exact Nat.lt_succ_of_le (length_joinRun _ _ _)

/-- Entries in ascending order. -/
structure Sorted (entries : List LoadSector) : Prop where
  ascending : entries.Pairwise fun left right => left.address < right.address
  aligned : ∀ entry ∈ entries, entry.address % flashSector = 0
  window : ∀ entry ∈ entries, InWindow entry.address
  sized : ∀ entry ∈ entries, ∀ data, entry.data = some data → data.length = flashSector

variable {entries rest : List LoadSector} {entry : LoadSector} {region : FlashRegion}
  {data : List Byte}

theorem Sorted.sublist
    {entries' : List LoadSector}
    (sorted : Sorted entries)
    (sublist : entries'.Sublist entries) : Sorted entries' where
  ascending := sorted.ascending.sublist sublist
  aligned entry member := sorted.aligned entry (sublist.subset member)
  window entry member := sorted.window entry (sublist.subset member)
  sized entry member := sorted.sized entry (sublist.subset member)

/-- Two sectors of the list lie behind each other. -/
theorem Sorted.behind
    (sorted : Sorted (entry :: rest))
    (member : next ∈ rest) : entry.address + flashSector ≤ next.address := by
  have before : entry.address < next.address := List.rel_of_pairwise_cons sorted.ascending member
  have aligned := sorted.aligned entry List.mem_cons_self
  have alignedNext := sorted.aligned next (List.mem_cons_of_mem _ member)
  simp only [flashSector] at *
  omega

/-- Entries with data for consecutive sectors, and these data. -/
structure RunOf (start : Nat) (run : List LoadSector) (data : List Byte) : Prop where
  size : data.length = flashSector * run.length
  entry : ∀ index, index < run.length → ∃ more, run[index]? =
      some ⟨start + flashSector * index, some more⟩ ∧
    ∀ offset, offset < flashSector → data[flashSector * index + offset]? = more[offset]?

theorem RunOf.append
    {start : Nat}
    {run : List LoadSector}
    {more : List Byte}
    (runOf : RunOf start run data)
    (whole : more.length = flashSector) :
    RunOf start (run ++ [⟨start + flashSector * run.length, some more⟩]) (data ++ more) where
  size := by
    rw [List.length_append, runOf.size, whole, List.length_append, List.length_singleton]
    ring
  entry index inside := by
    rw [List.length_append, List.length_singleton] at inside
    have size := runOf.size
    rcases Nat.lt_succ_iff_lt_or_eq.mp inside with before | rfl
    · obtain ⟨old, found, bytes⟩ := runOf.entry index before
      refine ⟨old, by rw [List.getElem?_append_left before, found], fun offset inSector => ?_⟩
      have next : flashSector * (index + 1) ≤ flashSector * run.length :=
        Nat.mul_le_mul_left _ before
      rw [List.getElem?_append_left (by rw [Nat.mul_succ] at next; omega), bytes offset inSector]
    · refine ⟨more, by simp, fun offset _ => ?_⟩
      rw [List.getElem?_append_right (by omega), size, Nat.add_sub_cancel_left]

/-- What `joinRun` joins: the entries up to the first gap. -/
theorem joinRun_spec
    {start last : Nat}
    {run : List LoadSector}
    (runOf : RunOf start run data)
    (last_eq : last + flashSector = start + flashSector * run.length)
    (word : last < pflashBase + pflashWindow)
    (sorted : Sorted rest) :
    ∃ taken left, rest = taken ++ left ∧ (joinRun last data rest).2 = left ∧
      RunOf start (run ++ taken) (joinRun last data rest).1 := by
  induction rest generalizing last data run with
  | nil => exact ⟨[], [], rfl, rfl, by rwa [List.append_nil]⟩
  | cons entry rest inductionHypothesis =>
      obtain ⟨address, stored⟩ := entry
      cases stored with
      | none =>
          refine ⟨[], ⟨address, none⟩ :: rest, rfl, rfl, ?_⟩
          rwa [List.append_nil]
      | some more =>
          rw [joinRun]
          by_cases follows : address = u32 (last + flashSector)
          · have whole : more.length = flashSector :=
              sorted.sized ⟨address, some more⟩ List.mem_cons_self more rfl
            have next_eq : u32 (last + flashSector) = start + flashSector * run.length :=
              (u32_of_lt (Nat.lt_trans (Nat.add_lt_add_right word _) (by decide))).trans last_eq
            obtain rfl : address = start + flashSector * run.length := follows.trans next_eq
            have window := sorted.window _ List.mem_cons_self
            have last_eq' : start + flashSector * run.length + flashSector = start + flashSector *
                (run ++ [LoadSector.mk (start + flashSector * run.length) (some more)]).length := by
              rw [List.length_append, List.length_singleton]
              ring
            obtain ⟨taken, left, rfl, left_eq, runOf'⟩ := inductionHypothesis
              (runOf.append whole) last_eq' window.2 (sorted.sublist (List.sublist_cons_self _ _))
            rw [List.append_assoc, List.singleton_append] at runOf'
            refine ⟨⟨start + flashSector * run.length, some more⟩ :: taken, left, rfl, ?_, ?_⟩
            · simp only [next_eq, if_true]
              exact left_eq
            · simp only [next_eq, if_true]
              exact runOf'
          · refine ⟨[], ⟨address, some more⟩ :: rest, rfl, ?_, ?_⟩
            · simp only [follows, if_false]
            · simp only [follows, if_false, List.append_nil]
              exact runOf

/-- What the regions of some entries are. -/
structure Carries (entries : List LoadSector) (regions : List FlashRegion) : Prop where
  covers : ∀ entry ∈ entries, ∀ data, entry.data = some data → ∃ region ∈ regions,
    region.address ≤ entry.address ∧
      entry.address + flashSector ≤ region.address + region.length ∧
        ∀ offset, offset < flashSector →
          region.data[entry.address - region.address + offset]? = data[offset]?
  only : ∀ region ∈ regions, ∀ address, region.Holds address → ∃ entry ∈ entries,
    entry.data ≠ none ∧ entry.address ≤ address ∧ address < entry.address + flashSector
  aligned : ∀ region ∈ regions, region.address % flashSector = 0
  window : ∀ region ∈ regions, pflashBase ≤ region.address ∧
    region.address + region.length ≤ pflashBase + pflashWindow
  disjoint : regions.Pairwise fun left right =>
    ∀ address, left.Holds address → ¬right.Holds address

theorem runOf_singleton (address : Nat) (whole : data.length = flashSector) :
    RunOf address [⟨address, some data⟩] data where
  size := by rw [whole, List.length_singleton, Nat.mul_one]
  entry index inside := by
    obtain rfl : index = 0 := Nat.lt_one_iff.mp inside
    exact ⟨data, rfl, fun offset _ => by rw [Nat.mul_zero, Nat.zero_add]⟩

/-- The entry of an address in a run. -/
theorem RunOf.entry_of_holds
    {start : Nat}
    {run : List LoadSector}
    (runOf : RunOf start run data)
    (holds : (FlashRegion.mk start data).Holds address) :
    ∃ entry ∈ run, entry.data ≠ none ∧ entry.address ≤ address ∧
      address < entry.address + flashSector := by
  obtain ⟨above, below⟩ : start ≤ address ∧ address < start + data.length := holds
  rw [runOf.size] at below
  have inRun : (address - start) / flashSector < run.length := by
    simp only [flashSector] at *
    omega
  obtain ⟨more, found, -⟩ := runOf.entry _ inRun
  refine ⟨_, List.mem_of_getElem? found, Option.some_ne_none _, ?_, ?_⟩
  · simp only [flashSector] at *
    omega
  · simp only [flashSector] at *
    omega

/-- A run puts every entry's data at its place. -/
theorem RunOf.covers
    {start : Nat}
    {run : List LoadSector}
    {bytes : List Byte}
    (runOf : RunOf start run bytes)
    (member : entry ∈ run)
    (stored : entry.data = some data) :
    start ≤ entry.address ∧ entry.address + flashSector ≤ start + bytes.length ∧
      ∀ offset, offset < flashSector → bytes[entry.address - start + offset]? = data[offset]? := by
  obtain ⟨index, found⟩ := List.mem_iff_getElem?.mp member
  have inRun : index < run.length := (List.getElem?_eq_some_iff.mp found).1
  obtain ⟨more, isAt, read⟩ := runOf.entry index inRun
  obtain rfl := Option.some.inj (found.symm.trans isAt)
  obtain rfl := Option.some.inj stored
  have next : flashSector * (index + 1) ≤ flashSector * run.length := Nat.mul_le_mul_left _ inRun
  refine ⟨Nat.le_add_right _ _, ?_, fun offset inSector => ?_⟩
  · rw [runOf.size]
    rw [Nat.mul_succ] at next
    exact (Nat.add_assoc _ _ _).trans_le (Nat.add_le_add_left next _)
  · rw [← read offset inSector, Nat.add_sub_cancel_left]

/-- A run before the entries of the other regions. -/
theorem Carries.cons
    {start : Nat}
    {run left : List LoadSector}
    {regions : List FlashRegion}
    (carries : Carries left regions)
    (runOf : RunOf start run data)
    (nonempty : run ≠ [])
    (sorted : Sorted (run ++ left)) :
    Carries (run ++ left) (⟨start, data⟩ :: regions) where
  covers entry member stored isStored := by
    rcases List.mem_append.mp member with first | later
    · exact ⟨_, List.mem_cons_self, runOf.covers first isStored⟩
    · obtain ⟨region, isRegion, facts⟩ := carries.covers entry later stored isStored
      exact ⟨region, List.mem_cons_of_mem _ isRegion, facts⟩
  only region isRegion address holds := by
    rcases List.mem_cons.mp isRegion with rfl | later
    · obtain ⟨entry, member, facts⟩ := runOf.entry_of_holds holds
      exact ⟨entry, List.mem_append_left _ member, facts⟩
    · obtain ⟨entry, member, facts⟩ := carries.only region later address holds
      exact ⟨entry, List.mem_append_right _ member, facts⟩
  aligned := by
    refine List.forall_mem_cons.mpr ⟨?_, carries.aligned⟩
    obtain ⟨more, found, -⟩ := runOf.entry 0 (List.length_pos_iff.mpr nonempty)
    exact sorted.aligned _ (List.mem_append_left _ (List.mem_of_getElem? found))
  window := by
    refine List.forall_mem_cons.mpr ⟨?_, carries.window⟩
    have positive := List.length_pos_iff.mpr nonempty
    obtain ⟨more, first, -⟩ := runOf.entry 0 positive
    obtain ⟨more', last, -⟩ := runOf.entry (run.length - 1) (Nat.sub_one_lt_of_lt positive)
    have inRun (index : Nat) (more : List Byte)
        (found : run[index]? = some ⟨start + flashSector * index, some more⟩) :
        InWindow (start + flashSector * index) ∧
          (start + flashSector * index) % flashSector = 0 :=
      ⟨sorted.window _ (List.mem_append_left _ (List.mem_of_getElem? found)),
        sorted.aligned _ (List.mem_append_left _ (List.mem_of_getElem? found))⟩
    have above := (inRun _ _ first).1.1
    have below := (inRun _ _ last).1.2
    have aligned := (inRun _ _ last).2
    have size := runOf.size
    simp only [FlashRegion.length, pflashBase, pflashWindow, flashSector] at *
    omega
  disjoint := by
    refine List.pairwise_cons.mpr ⟨fun region isRegion address holds inRegion => ?_,
      carries.disjoint⟩
    obtain ⟨first, inRun, -, above, below⟩ := runOf.entry_of_holds holds
    obtain ⟨second, inLeft, -, above', below'⟩ := carries.only region isRegion address inRegion
    have before := (List.pairwise_append.mp sorted.ascending).2.2 first inRun second inLeft
    have aligned := sorted.aligned first (List.mem_append_left _ inRun)
    have aligned' := sorted.aligned second (List.mem_append_right _ inLeft)
    simp only [flashSector] at *
    omega

theorem carries_loadRegions {entries : List LoadSector} (sorted : Sorted entries) :
    Carries entries (loadRegions entries) := by
  match entries with
  | [] =>
      rw [loadRegions]
      exact ⟨fun _ none => absurd none List.not_mem_nil, fun _ none => absurd none List.not_mem_nil,
        fun _ none => absurd none List.not_mem_nil, fun _ none => absurd none List.not_mem_nil,
        List.Pairwise.nil⟩
  | ⟨address, none⟩ :: rest =>
      have carries := carries_loadRegions (sorted.sublist (List.sublist_cons_self _ _))
      rw [loadRegions]
      refine ⟨fun entry member data stored => ?_, fun region isRegion address holds => ?_,
        carries.aligned, carries.window, carries.disjoint⟩
      · rcases List.mem_cons.mp member with rfl | later
        · cases stored
        · exact carries.covers entry later data stored
      · obtain ⟨entry, member, facts⟩ := carries.only region isRegion address holds
        exact ⟨entry, List.mem_cons_of_mem _ member, facts⟩
  | ⟨address, some data⟩ :: rest =>
      have first := sorted.window _ List.mem_cons_self
      have whole : data.length = flashSector :=
        sorted.sized ⟨address, some data⟩ List.mem_cons_self data rfl
      obtain ⟨taken, left, rest_eq, left_eq, runOf⟩ := joinRun_spec
        (runOf_singleton address whole) (by rw [List.length_singleton, Nat.mul_one]) first.2
        (sorted.sublist (List.sublist_cons_self _ _))
      have smaller : left.length ≤ rest.length := by
        rw [rest_eq, List.length_append]
        exact Nat.le_add_left _ _
      have whole_eq : (⟨address, some data⟩ :: rest : List LoadSector) =
          (⟨address, some data⟩ :: taken) ++ left := congrArg _ rest_eq
      have carries : Carries left (loadRegions left) := carries_loadRegions (sorted.sublist (by
        rw [whole_eq]
        exact List.sublist_append_right _ _))
      rw [loadRegions]
      simp only [left_eq]
      rw [whole_eq] at sorted ⊢
      exact carries.cons runOf (List.cons_ne_nil _ _) sorted
  termination_by entries.length
  decreasing_by
    · exact Nat.lt_succ_self _
    · exact Nat.lt_succ_of_le smaller

theorem Carries.wellPlaced
    {regions : List FlashRegion}
    (carries : Carries entries regions) : WellPlaced regions where
  start region member := by
    have window := carries.window region member
    simp only [pflashBase, pflashWindow] at window
    omega
  fits region member := by
    have window := carries.window region member
    simp only [pflashBase, pflashWindow] at window
    omega
  aligned region member := by
    have aligned := carries.aligned region member
    simp only [flashSector, flashPage] at *
    omega
  uncached region member :=
    uncached_iff.mpr (Or.inr (Nat.le_trans (by decide) (carries.window region member).1))
  disjoint := carries.disjoint

/-! ## The loop of a load -/

variable {session : FlashSession} {target last : HonestTarget} {sector : Nat}

/-- The sectors that are erased only. -/
def eraseOnly (entries : List LoadSector) : List Word :=
  (entries.filter fun entry => entry.data.isNone).map LoadSector.address

theorem sectorsFrom_one
    (aligned : sector % flashSector = 0)
    (window : InWindow sector) :
    sectorsFrom (2 ^ 32 / flashSector) (alignDown sector flashSector)
      (u32 (sector + flashSector)) = [sector] := by
  have start : alignDown sector flashSector = sector := by
    simp only [alignDown, flashSector] at *
    omega
  have word : sector + flashSector < 2 ^ 32 :=
    Nat.lt_trans (Nat.add_lt_add_right window.2 _) (by decide)
  have fuel_eq : 2 ^ 32 / flashSector = 2 ^ 18 - 2 + 1 + 1 := by decide
  rw [start, u32_of_lt word, fuel_eq, sectorsFrom, if_pos (Nat.lt_add_of_pos_right (by decide)),
    u32_of_lt word, sectorsFrom, if_neg (Nat.lt_irrefl _)]

/-- An erase of one sector on request. -/
theorem holds_tricoreFlashErase
    {before : Nat → Byte}
    (session : FlashSession)
    (errsr : Word)
    (aligned : sector % flashSector = 0)
    (window : InWindow sector)
    (spared : Spared session [sector] before target) :
    (tricoreFlashErase session errsr sector flashSector).Holds
      (HonestTarget.device session.swapActive) (Spared session [sector] before)
      (fun result last => result.1 = .ok () → Blank session [sector] last) target := by
  rw [tricoreFlashErase, sectorsFrom_one aligned window]
  split
  · exact ⟨spared, fun impossible => by cases impossible⟩
  · rw [eraseEach]
    have one : Consecutive session [sector] (session.command sector) 1 := consecutive_one sector []
    refine (holds_eraseRange_run one errsr spared).bind fun result target₁ spared₁ blank₁ => ?_
    obtain ⟨erased, latched⟩ := result
    cases erased with
    | false => exact ⟨spared₁, fun impossible => by cases impossible⟩
    | true => exact ⟨spared₁, fun _ => blank₁ rfl⟩

theorem eraseOnly_cons_none (address : Nat) (entries : List LoadSector) :
    eraseOnly (⟨address, none⟩ :: entries) = address :: eraseOnly entries := rfl

theorem eraseOnly_append (first second : List LoadSector) :
    eraseOnly (first ++ second) = eraseOnly first ++ eraseOnly second := by
  rw [eraseOnly, List.filter_append, List.map_append]
  rfl

/-- A run has no entry that is erased only. -/
theorem RunOf.eraseOnly_eq
    {start : Nat}
    {run : List LoadSector}
    (runOf : RunOf start run data) : eraseOnly run = [] := by
  rw [eraseOnly, List.map_eq_nil_iff, List.filter_eq_nil_iff]
  intro entry member
  obtain ⟨index, found⟩ := List.mem_iff_getElem?.mp member
  obtain ⟨more, isAt, -⟩ := runOf.entry index (List.getElem?_eq_some_iff.mp found).1
  obtain rfl := Option.some.inj (found.symm.trans isAt)
  simp

/-- The loop of `load_apply`: where it goes through, the sectors to be erased only are blank
and the others make up the regions. -/
theorem holds_loadRuns
    {entries : List LoadSector}
    {target : HonestTarget}
    {before : Nat → Byte}
    (grants : Nat → Bool)
    (errsr : Word)
    (regions : List FlashRegion)
    (sorted : Sorted entries)
    (spared : Spared session (eraseOnly entries) before target) :
    (loadRuns session grants entries errsr regions).Holds
      (HonestTarget.device session.swapActive) (Spared session (eraseOnly entries) before)
      (fun result last => result.1 = true →
        result.2.2 = regions ++ loadRegions entries ∧ Blank session (eraseOnly entries) last)
      target := by
  match entries with
  | [] =>
      rw [loadRuns, loadRegions, List.append_nil]
      refine ⟨spared, fun _ => ⟨rfl, fun command inNone => ?_⟩⟩
      obtain ⟨sector, none, -⟩ := inNone
      exact absurd none List.not_mem_nil
  | ⟨address, none⟩ :: rest =>
      have aligned : address % flashSector = 0 := sorted.aligned ⟨address, none⟩ List.mem_cons_self
      have window : InWindow address := sorted.window ⟨address, none⟩ List.mem_cons_self
      rw [eraseOnly_cons_none] at spared ⊢
      rw [loadRuns, loadRegions]
      have one : [address] ⊆ address :: eraseOnly rest := by simp
      have others : eraseOnly rest ⊆ address :: eraseOnly rest := List.subset_cons_self _ _
      have erases : (tricoreFlashErase session errsr address flashSector).Holds
          (HonestTarget.device session.swapActive) (Spared session [address] target.flash.cells)
          (fun result last => result.1 = .ok () → Blank session [address] last) target :=
        holds_tricoreFlashErase session errsr aligned window fun _ _ => rfl
      refine (erases.mono (fun last kept command notIn => ?_) fun _ _ _ blank => blank).bind
          fun result target₁ spared₁ blank₁ => ?_
      · rw [kept command fun inOne => notIn (inSectors_mono one inOne)]
        exact spared command notIn
      · obtain ⟨result, latched⟩ := result
        cases result with
        | error fault => exact ⟨spared₁, fun impossible => by cases impossible⟩
        | ok _ =>
            refine (holds_loadRuns grants latched regions
              (sorted.sublist (List.sublist_cons_self _ _)) fun _ _ => rfl).mono
              (fun last kept command notIn => ?_) fun result last kept went ok => ?_
            · rw [kept command fun inRest => notIn (inSectors_mono others inRest)]
              exact spared₁ command notIn
            · obtain ⟨regions_eq, blank⟩ := went ok
              refine ⟨regions_eq, fun command inSectors => ?_⟩
              by_cases later : InSectors session (eraseOnly rest) command
              · exact blank command later
              · rw [kept command later]
                obtain ⟨found, member, inSector⟩ := inSectors
                rcases List.mem_cons.mp member with rfl | member
                · exact blank₁ rfl command ⟨found, List.mem_singleton_self _, inSector⟩
                · exact absurd ⟨found, member, inSector⟩ later
  | ⟨address, some data⟩ :: rest =>
      have first := sorted.window _ List.mem_cons_self
      have whole : data.length = flashSector :=
        sorted.sized ⟨address, some data⟩ List.mem_cons_self data rfl
      obtain ⟨taken, left, rest_eq, left_eq, runOf⟩ := joinRun_spec
        (runOf_singleton address whole) (by rw [List.length_singleton, Nat.mul_one]) first.2
        (sorted.sublist (List.sublist_cons_self _ _))
      have smaller : left.length ≤ rest.length := by
        rw [rest_eq, List.length_append]
        exact Nat.le_add_left _ _
      have whole_eq : (⟨address, some data⟩ :: rest : List LoadSector) =
          (⟨address, some data⟩ :: taken) ++ left := congrArg _ rest_eq
      have only_eq : eraseOnly (⟨address, some data⟩ :: rest) = eraseOnly left := by
        rw [whole_eq, eraseOnly_append]
        exact (congrArg (· ++ eraseOnly left) runOf.eraseOnly_eq).trans (List.nil_append _)
      have sortedLeft : Sorted left := sorted.sublist (by
        rw [whole_eq]
        exact List.sublist_append_right _ _)
      rw [only_eq] at spared ⊢
      rw [loadRuns, loadRegions]
      simp only [left_eq]
      split
      · refine (holds_loadRuns grants errsr _ sortedLeft spared).mono (fun _ => id)
          fun result last _ went ok => ?_
        obtain ⟨regions_eq, blank⟩ := went ok
        exact ⟨by rw [regions_eq, List.append_assoc]; rfl, blank⟩
      · exact ⟨spared, fun impossible => by cases impossible⟩
  termination_by entries.length
  decreasing_by
    · exact Nat.lt_succ_self _
    · exact Nat.lt_succ_of_le smaller

end Flash
end TriCoreDap
