import TriCoreDap.Flash.Programming

/-!
# Commands stay on the image

Along every run of `tricore_flash_apply`, whatever the target answers, each
erase command covers sectors that regions touch, each load covers consecutive
pages of a region, and all of it is populated program flash.
-/

namespace TriCoreDap
namespace Flash

open Probe

variable {session : FlashSession} {regions : List FlashRegion} {log : List Event}
  {erased loaded : Nat → Prop} {sectors : List Word}

/-! ## Stages without commands -/

theorem uses_bytesDiffer (region : FlashRegion) (low high : Nat) :
    (bytesDiffer region low high).Uses Calm := by
  unfold bytesDiffer
  split
  · exact True.intro
  · refine ⟨calm_checksum _ _ _, fun reply => ?_⟩
    cases reply with
    | none => exact True.intro
    | some actual => exact True.intro

theorem uses_sectorDiffers (sector : Word) (regions : List FlashRegion) :
    (sectorDiffers sector regions).Uses Calm := by
  induction regions with
  | nil => exact True.intro
  | cons region rest inductionHypothesis =>
      rw [sectorDiffers, regionDiffers]
      generalize overlapLow sector region = low, overlapHigh sector region = high
      refine Program.uses_bind (uses_bytesDiffer region low high) fun differs => ?_
      cases differs with
      | true => exact True.intro
      | false => exact inductionHypothesis

theorem uses_keepSector
    (session : FlashSession)
    (regions : List FlashRegion)
    (sector : Word) : (keepSector session regions sector).Uses Calm := by
  unfold keepSector
  split
  · exact True.intro
  · exact uses_sectorDiffers sector regions

theorem uses_verifyRegions (regions : List FlashRegion) :
    (verifyRegions regions).Uses Calm := by
  induction regions with
  | nil => trivial
  | cons region rest inductionHypothesis =>
      refine Program.uses_bind ?_ fun result => ?_
      · refine ⟨calm_checksum _ _ _, fun reply => ?_⟩
        cases reply <;> trivial
      · cases result with
        | error fault => trivial
        | ok _ => exact inductionHypothesis

theorem uses_safeShutdown (session : FlashSession) : (safeShutdown session).Uses Calm := by
  refine Program.uses_bind uses_clearStatus fun _ => ?_
  cases session.saved with
  | none => trivial
  | some saved =>
      exact ⟨calm_cycle _ _ (Or.inl (by decide)), fun _ =>
        ⟨calm_cycle _ _ (Or.inl (by decide)), fun _ => trivial⟩⟩

/-- Comparing keeps the guard and goes through the sectors in order. -/
theorem holds_keepSectors
    (guarded : Guarded session regions erased loaded log)
    (sectors : List Word) :
    (keepSectors session regions sectors).Holds logging
      (Guarded session regions erased loaded)
      (fun kept _ => kept.map Prod.fst = sectors) log := by
  induction sectors generalizing log with
  | nil => exact ⟨guarded, rfl⟩
  | cons sector rest inductionHypothesis =>
      refine (guarded.holds_of_calm (uses_keepSector session regions sector)).bind fun keep log₁ guarded₁ _ => ?_
      refine (inductionHypothesis guarded₁).bind fun others log₂ guarded₂ same => ?_
      exact ⟨guarded₂, congrArg (sector :: ·) same⟩

/-! ## The whole run -/

theorem sublist_eraseList (kept : List (Word × Bool)) :
    (eraseList kept).Sublist (kept.map Prod.fst) :=
  List.filter_sublist.map _

theorem mem_eraseList {kept : List (Word × Bool)} (member : (sector, true) ∈ kept) :
    sector ∈ eraseList kept :=
  List.mem_map.mpr ⟨(sector, true), List.mem_filter.mpr ⟨member, rfl⟩, rfl⟩

theorem holds_eraseAndProgram
    {kept : List (Word × Bool)}
    (placed : WellPlaced regions)
    (accepted : Accepted session regions (kept.map Prod.fst))
    (guarded : Guarded session regions (fun _ => False) (fun _ => False) log) :
    (eraseAndProgram session regions kept).Holds logging (AllPermitted session regions)
      (fun _ _ => True) log := by
  unfold eraseAndProgram
  split
  · exact ⟨guarded.logged, trivial⟩
  · have erases := holds_eraseSectors (accepted.sublist (sublist_eraseList kept)) guarded
      session.eraseState
    refine (erases.mono (fun _ guarded => guarded.logged) fun _ _ _ post => post).bind
      fun result log₁ permitted₁ erased₁ => ?_
    obtain ⟨_ | _, state⟩ := result
    · exact ⟨permitted₁, trivial⟩
    · have erasedKept : ∀ sector, (sector, true) ∈ kept → ∀ address,
          InSector session sector address → False ∨
            ∃ sector ∈ eraseList kept, InSector session sector address :=
        fun sector member address inSector =>
          Or.inr ⟨sector, mem_eraseList member, inSector⟩
      have programs := holds_programRegions placed accepted erasedKept [] regions rfl
        ((erased₁ rfl).mono (fun _ => id) fun _ => False.elim)
      exact programs.bind fun result log₂ permitted₂ _ => ⟨permitted₂, trivial⟩

theorem AllPermitted.holds_of_calm
    {program : Run α}
    (permitted : AllPermitted session regions log)
    (uses : program.Uses Calm) :
    program.Holds logging (AllPermitted session regions) (fun _ _ => True) log := by
  refine Program.holds_of_uses (fun op state reply state' calm permitted step => ?_) uses
    permitted
  obtain rfl := step
  exact Logged.append_calm permitted _ calm

theorem holds_applySectors
    (placed : WellPlaced regions)
    (accepted : Accepted session regions sectors) :
    (applySectors session regions sectors).Holds logging (AllPermitted session regions)
      (fun _ _ => True) [] := by
  have start : Guarded session regions (fun _ => False) (fun _ => False) [] :=
    ⟨Logged.nil, fun _ => False.elim, fun _ ⟨_, _, _, _, member, _⟩ =>
      absurd member List.not_mem_nil⟩
  have compares := (holds_keepSectors start sectors).mono
    (fun _ guarded => guarded.logged) fun _ _ guarded same => And.intro guarded same
  refine compares.bind fun kept log₁ _ compared => ?_
  obtain ⟨guarded₁, rfl⟩ := compared
  refine (holds_eraseAndProgram placed accepted guarded₁).bind
    fun result log₂ permitted₂ _ => ?_
  obtain ⟨result, state⟩ := result
  refine (permitted₂.holds_of_calm (uses_safeShutdown session)).bind
    fun _ log₃ permitted₃ _ => ?_
  cases result with
  | error fault => exact ⟨permitted₃, trivial⟩
  | ok _ =>
      exact (permitted₃.holds_of_calm (uses_verifyRegions regions)).bind
        fun result log₄ permitted₄ _ => ⟨permitted₄, trivial⟩

theorem holds_tricoreFlashApply (placed : WellPlaced regions) :
    (tricoreFlashApply session regions).Holds logging (AllPermitted session regions)
      (fun _ _ => True) [] := by
  have start : AllPermitted session regions [] := Logged.nil
  have refuses (fault : FlashFault) :
      (safeShutdown session >>= fun _ => Program.done (Except.error fault, session.eraseState) :
        Run (FlashResult × EraseState)).Holds logging (AllPermitted session regions)
          (fun _ _ => True) [] :=
    (start.holds_of_calm (uses_safeShutdown session)).bind
      fun _ log permitted _ => ⟨permitted, trivial⟩
  unfold tricoreFlashApply
  split
  · exact ⟨start, trivial⟩
  · split
    · exact refuses _
    · next found collected =>
        extract_lets sectors
        split
        · exact refuses _
        · next notRefused =>
            exact holds_applySectors placed
              (accepted_of_collectSectors placed collected notRefused)

/-- Whatever the layout, the swap, the target's answers and the point at which
the run is cut off: every command is permitted by what was done before it. -/
theorem apply_commands_on_image
    (session : FlashSession)
    (placed : WellPlaced regions)
    (reaches : (tricoreFlashApply session regions).Reaches logging []
      (before ++ event :: after))
    (isCommand : commandOf before event.1 = some command) :
    Permitted session regions before command :=
  (holds_tricoreFlashApply placed).of_reaches reaches before event after rfl command isCommand

/-- A 10 MB part without swap, every sector to be programmed. -/
def plainSession : FlashSession := ⟨some 0x0C000000, false, false, none, ⟨true, 0⟩⟩

/-- Everything succeeds at once. -/
def willing (op : Op) (log : List Event) : Reply op × List Event :=
  let reply : Reply op :=
    match op with
    | .read32 _ => some 0
    | .write32 _ _ => true
    | .clearErrorState => ()
    | .deadline _ => 0
    | .writeBlock _ _ => true
    | .runLoader _ _ _ _ => some 0
  (reply, log ++ [⟨op, reply⟩])

/-- A byte in the first sector and two in the third. -/
def pairRegions : List FlashRegion := [⟨0xA0000000, [0x12]⟩, ⟨0xA0008000, [0x34, 0x56]⟩]

theorem wellPlaced_pairRegions : WellPlaced pairRegions where
  start := by decide
  fits := by decide
  aligned := by decide
  uncached := List.forall_mem_cons.mpr ⟨uncached_iff.mpr (Or.inr (by decide)),
    List.forall_mem_singleton.mpr (uncached_iff.mpr (Or.inr (by decide)))⟩
  disjoint := by
    refine List.pairwise_pair.mpr fun address inFirst inSecond => ?_
    simp only [FlashRegion.Holds, FlashRegion.length, List.length_cons, List.length_nil]
      at inFirst inSecond
    omega

theorem tricoreFlashApply_pairRegions
    {session : FlashSession}
    (accepted : ([0xA0000000, 0xA0008000] : List Word).find? (fun sector =>
      !isProgramFlash session.layout (session.command sector)) = none) :
    tricoreFlashApply session pairRegions =
      applySectors session pairRegions [0xA0000000, 0xA0008000] := by
  have collected : collectSectors pairRegions [] = some [0xA0000000, 0xA0008000] := by
    decide +kernel
  have sorted : List.mergeSort ([0xA0000000, 0xA0008000] : List Word) =
      [0xA0000000, 0xA0008000] :=
    List.mergeSort_of_pairwise (by decide)
  have some : pairRegions ≠ [] := List.cons_ne_nil _ _
  rw [tricoreFlashApply, if_neg some, collected]
  simp only [sorted, accepted]

/-- What has been done after some operations. -/
def pairApplied (operations : Nat) : List Event :=
  ((applySectors plainSession pairRegions [0xA0000000, 0xA0008000]).runFor willing operations []).2

theorem reaches_pairApplied (operations : Nat) :
    (tricoreFlashApply plainSession pairRegions).Reaches logging [] (pairApplied operations) := by
  rw [tricoreFlashApply_pairRegions (by decide)]
  exact Program.reaches_runFor willing (fun _ _ => rfl) operations _ _

theorem pairApplied_command :
    pairApplied 24 =
        pairApplied 23 ++ [⟨.runLoader .program 0xA0008000 1 20000, some 0⟩] ∧
      commandOf (pairApplied 23) (.runLoader .program 0xA0008000 1 20000) =
        some (.load 0xA0008000 1) := by
  decide +kernel

/-- The page of the second region is programmed, after two erases and the first page. -/
theorem apply_commands_on_image_secondPage :
    Permitted plainSession pairRegions (pairApplied 23) (.load 0xA0008000 1) :=
  apply_commands_on_image plainSession wellPlaced_pairRegions
    (pairApplied_command.1 ▸ reaches_pairApplied 24) pairApplied_command.2

end Flash
end TriCoreDap
