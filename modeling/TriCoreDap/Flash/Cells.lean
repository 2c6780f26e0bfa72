import TriCoreDap.Flash.Contents
import TriCoreDap.Flash.Honest

/-!
# The cells after a successful apply

On a target that shows its errors a successful apply leaves every cell known: the erased
sectors hold the regions with their last pages padded and are blank elsewhere, and all other
cells are as they were.
-/

namespace TriCoreDap
namespace Flash

open Probe

variable {session : FlashSession} {regions : List FlashRegion} {log : List Event}
  {kept : List (Word × Bool)} {covered : Nat → Prop}

/-! ## Erase commands of a log -/

/-- An operation that is not the last cycle of an erase. -/
def NoErase (op : Op) : Prop :=
  ∀ log addr count, commandOf log op ≠ some (.erase addr count)

theorem noErase_of_calm (op : Op) (calm : Calm op) : NoErase op := by
  intro log addr count impossible
  rw [calm log] at impossible
  cases impossible

theorem noErase_load (addr pages timeoutMs : Nat) :
    NoErase (.runLoader .program addr pages timeoutMs) := by
  intro log addr count impossible
  cases impossible

theorem eraseCommanded_of_append
    {op : Op}
    {reply : Reply op}
    (noErase : NoErase op)
    (commanded : EraseCommanded (log ++ [⟨op, reply⟩]) address) :
    EraseCommanded log address := by
  obtain ⟨before, event, after, command, count, split, isCommand, covers⟩ := commanded
  rcases List.eq_nil_or_concat after with rfl | ⟨rest, last, rfl⟩
  · obtain ⟨rfl, same⟩ := List.append_inj' split rfl
    obtain rfl := List.singleton_inj.mp same
    exact absurd isCommand (noErase _ _ _)
  · rw [List.concat_eq_append, ← List.cons_append, ← List.append_assoc] at split
    obtain ⟨rfl, -⟩ := List.append_inj' split rfl
    exact ⟨before, event, rest, command, count, rfl, isCommand, covers⟩

/-- The log's erase commands cover some cells and no others. -/
structure Erases (covered : Nat → Prop) (log : List Event) : Prop where
  all : ∀ address, covered address → EraseCommanded log address
  only : ∀ address, EraseCommanded log address → covered address

theorem Erases.step
    (op : Op)
    (log : List Event)
    (reply : Reply op)
    (log' : List Event)
    (noErase : NoErase op)
    (erases : Erases covered log)
    (step : logging op log reply log') : Erases covered log' := by
  obtain rfl := step
  exact ⟨fun address isCovered => (erases.all address isCovered).append _,
    fun address commanded => erases.only address (eraseCommanded_of_append noErase commanded)⟩

theorem Erases.holds_of_uses
    {program : Run α}
    (erases : Erases covered log)
    (uses : program.Uses NoErase) :
    program.Holds logging (Erases covered) (fun _ _ => True) log :=
  Program.holds_of_uses Erases.step uses erases

theorem uses_programChunks
    (session : FlashSession)
    (address offset : Nat)
    (data : List Byte) : (programChunks session address offset data).Uses NoErase := by
  rw [programChunks]
  split
  · trivial
  · extract_lets chunk padded start
    split
    · trivial
    · refine ⟨noErase_of_calm _ (calm_writeBlock _ _), fun filled => ?_⟩
      cases filled with
      | false => trivial
      | true =>
          refine ⟨noErase_load _ _ _, fun reply => ?_⟩
          cases reply with
          | none => trivial
          | some _ => exact uses_programChunks session address _ _
  termination_by data.length
  decreasing_by
    have nonempty : 0 < data.length := List.length_pos_iff.mpr ‹¬data = []›
    rw [List.length_drop, loaderBufferBytes]
    omega

theorem uses_programKept
    (session : FlashSession)
    (region : FlashRegion)
    (entries : List (Word × Bool)) : (programKept session region entries).Uses NoErase := by
  match entries with
  | [] =>
      rw [programKept]
      trivial
  | (sector, keep) :: rest =>
      rw [programKept]
      split
      · exact uses_programKept session region rest
      · extract_lets last low top high
        refine Program.uses_bind ?_ fun result => ?_
        · unfold tricoreFlashProgram
          split
          · trivial
          · exact uses_programChunks session _ _ _
        · cases result with
          | error fault => trivial
          | ok _ => exact uses_programKept session region _
  termination_by entries.length
  decreasing_by
    · exact Nat.lt_succ_of_le (length_keptRun region.stop sector rest)
    · exact Nat.lt_succ_self _

theorem uses_programRegions
    (session : FlashSession)
    (kept : List (Word × Bool))
    (regions : List FlashRegion) : (programRegions session kept regions).Uses NoErase := by
  induction regions with
  | nil => trivial
  | cons region rest inductionHypothesis =>
      refine Program.uses_bind (uses_programKept session region kept) fun result => ?_
      cases result with
      | error fault => trivial
      | ok _ => exact inductionHypothesis

theorem uses_keepSectors
    (session : FlashSession)
    (regions : List FlashRegion)
    (sectors : List Word) : (keepSectors session regions sectors).Uses Calm := by
  induction sectors with
  | nil => trivial
  | cons sector rest inductionHypothesis =>
      refine Program.uses_bind (uses_keepSector session regions sector) fun keep => ?_
      exact Program.uses_bind inductionHypothesis fun _ => trivial

/-! ## The erase commands of the erase stage -/

/-- A sector as a region of its own. -/
def sectorRegion (sector : Word) : FlashRegion := ⟨sector, List.replicate flashSector 0⟩

theorem length_sectorRegion (sector : Word) : (sectorRegion sector).length = flashSector :=
  List.length_replicate

theorem eq_of_touches_sectorRegion
    {left right : Nat}
    (alignedLeft : left % flashSector = 0)
    (alignedRight : right % flashSector = 0)
    (touches : Touches (sectorRegion left) right) : left = right := by
  obtain ⟨above, below⟩ := touches
  rw [length_sectorRegion] at below
  simp only [sectorRegion, flashSector] at *
  omega

theorem accepted_sectorRegions
    {sectors : List Word}
    (accepted : Accepted session regions sectors) :
    Accepted session (sectors.map sectorRegion) sectors where
  ascending := accepted.ascending
  programmable := accepted.programmable
  touched sector member := by
    refine ⟨sectorRegion sector, List.mem_map_of_mem member, ?_, ?_⟩
    · exact Nat.lt_add_of_pos_right (by decide)
    · rw [length_sectorRegion]
      exact Nat.lt_add_of_pos_right (by decide)

/-- An erase stage that succeeds has commanded the erase of its sectors and of no others. -/
theorem holds_eraseSectors_erases
    {sectors : List Word}
    (accepted : Accepted session regions sectors)
    (quiet : Logged (fun _ _ => False) log)
    (state : EraseState) :
    (eraseSectors session.swapActive state sectors).Holds logging (fun _ => True)
      (fun result log' => result.1 = .ok () → Erases (InSectors session sectors) log') log := by
  have guarded : Guarded session (sectors.map sectorRegion) (fun _ => False) (fun _ => False)
      log := by
    refine ⟨fun before event after split command isCommand =>
      (quiet before event after split command isCommand).elim, fun _ => False.elim, ?_⟩
    rintro address ⟨addr, pages, timeoutMs, reply, member, -⟩
    obtain ⟨before, after, split⟩ := List.append_of_mem member
    exact quiet before _ after split (.load addr pages) rfl
  refine (holds_eraseSectors (accepted_sectorRegions accepted) guarded state).mono
    (fun _ _ => trivial) fun result log' _ erased ok => ?_
  constructor
  · intro address inSectors
    exact ((erased ok).erasedIn address (Or.inr inSectors)).eraseCommanded
  · intro address commanded
    obtain ⟨sector, offset, inSector, aligned, uncached, ⟨region, member, touches⟩, rfl⟩ :=
      touched_of_eraseCommanded (erased ok).logged commanded
    obtain ⟨found, inList, rfl⟩ := List.mem_map.mp member
    have programmable := accepted.programmable found inList
    obtain rfl := eq_of_touches_sectorRegion programmable.aligned aligned touches
    refine ⟨found, inList, ?_⟩
    rw [InSector, FlashSession.command, FlashSession.command,
      programmable.commandAddress_add inSector]
    omega

/-! ## The stages of an apply -/

/-- An apply that succeeds has compared, erased, programmed and verified. -/
structure Stages
    (device : Device Op Reply σ)
    (session : FlashSession)
    (regions : List FlashRegion)
    (sectors : List Word)
    (kept : List (Word × Bool))
    (state : EraseState)
    (first compared written restored last : σ) : Prop where
  compare : (keepSectors session regions sectors).Returns device first kept compared
  write : (eraseAndProgram session regions kept).Returns device compared (.ok (), state) written
  shutdown : (safeShutdown session).Returns device written () restored
  verify : (verifyRegions regions).Returns device restored (.ok ()) last

theorem stages_of_returns
    {device : Device Op Reply σ}
    {first last : σ}
    {sectors : List Word}
    (returns : (applySectors session regions sectors).Returns device first (.ok (), state) last) :
    ∃ kept compared written restored,
      Stages device session regions sectors kept state first compared written restored last := by
  obtain ⟨kept, compared, compare, returns⟩ := Program.exists_returns_of_bind returns
  obtain ⟨⟨result, state'⟩, written, write, returns⟩ := Program.exists_returns_of_bind returns
  obtain ⟨_, restored, shutdown, returns⟩ := Program.exists_returns_of_bind returns
  cases result with
  | error fault =>
      obtain ⟨impossible, -⟩ := Program.eq_of_returns_done returns
      cases impossible
  | ok _ =>
      obtain ⟨result, verified, verify, returns⟩ := Program.exists_returns_of_bind returns
      obtain ⟨same, rfl⟩ := Program.eq_of_returns_done returns
      obtain ⟨rfl, rfl⟩ := Prod.mk.inj same
      exact ⟨kept, compared, written, restored, compare, write, shutdown, verify⟩

/-- The sectors of an apply that succeeds. -/
theorem sectors_of_returns
    {device : Device Op Reply σ}
    {first last : σ}
    (placed : WellPlaced regions)
    (returns : (tricoreFlashApply session regions).Returns device first (.ok (), state) last) :
    ∃ found, collectSectors regions [] = some found ∧
      Accepted session regions found.mergeSort ∧
      (applySectors session regions found.mergeSort).Returns device first (.ok (), state) last := by
  have refused (fault : FlashFault) :
      ¬(safeShutdown session >>= fun _ => Program.done (Except.error fault, session.eraseState) :
        Run (FlashResult × EraseState)).Returns device first (.ok (), state) last := by
    intro returns
    obtain ⟨_, restored, -, returns⟩ := Program.exists_returns_of_bind returns
    obtain ⟨impossible, -⟩ := Program.eq_of_returns_done returns
    cases impossible
  unfold tricoreFlashApply at returns
  split at returns
  · obtain ⟨impossible, -⟩ := Program.eq_of_returns_done returns
    cases impossible
  · split at returns
    · exact absurd returns (refused _)
    · next found collected =>
        extract_lets sectors at returns
        split at returns
        · exact absurd returns (refused _)
        · next notRefused =>
            exact ⟨found, collected, accepted_of_collectSectors placed collected notRefused,
              returns⟩

/-- The commands of a successful erase and programming. -/
theorem returns_eraseAndProgram
    {device : Device Op Reply σ}
    {first last : σ}
    (returns : (eraseAndProgram session regions kept).Returns device first (.ok (), state) last) :
    eraseList kept = [] ∧ last = first ∨
      ∃ erased, (eraseSectors session.swapActive session.eraseState (eraseList kept)).Returns
          device first (.ok (), state) erased ∧
        (programRegions session kept regions).Returns device erased (.ok ()) last := by
  unfold eraseAndProgram at returns
  split at returns
  · next none =>
      exact Or.inl ⟨none, (Program.eq_of_returns_done returns).2⟩
  · obtain ⟨⟨result, state'⟩, erased, erase, returns⟩ := Program.exists_returns_of_bind returns
    cases result with
    | error fault =>
        obtain ⟨impossible, -⟩ := Program.eq_of_returns_done returns
        cases impossible
    | ok _ =>
        obtain ⟨result, programmed, program, returns⟩ := Program.exists_returns_of_bind returns
        obtain ⟨same, rfl⟩ := Program.eq_of_returns_done returns
        obtain ⟨rfl, rfl⟩ := Prod.mk.inj same
        exact Or.inr ⟨erased, erase, program⟩

/-! ## The log of an apply -/

theorem quiet_of_calm
    {program : Run α}
    (uses : program.Uses Calm)
    (quiet : Logged (fun _ _ => False) log)
    (returns : program.Returns logging log result log') : Logged (fun _ _ => False) log' := by
  refine ((Program.holds_of_uses (fun op log reply log' calm quiet step => ?_) uses
    quiet).of_returns returns).1
  obtain rfl := step
  exact Logged.append_calm quiet _ calm

theorem erases_of_returns
    {program : Run α}
    (uses : program.Uses NoErase)
    (erases : Erases covered log)
    (returns : program.Returns logging log result log') : Erases covered log' :=
  ((erases.holds_of_uses uses).of_returns returns).1

theorem erases_of_quiet (quiet : Logged (fun _ _ => False) log) :
    Erases (InSectors session []) log where
  all _ inNone := by
    obtain ⟨sector, none, -⟩ := inNone
    exact absurd none List.not_mem_nil
  only address commanded := by
    obtain ⟨before, event, after, command, count, split, isCommand, -⟩ := commanded
    exact (quiet before event after split _ isCommand).elim

/-- A successful apply has commanded the erase of the kept sectors and of no others. -/
theorem Stages.erases
    {sectors : List Word}
    {compared written restored last : List Event}
    (stages : Stages logging session regions sectors kept state [] compared written restored last)
    (accepted : Accepted session regions (eraseList kept)) :
    Erases (InSectors session (eraseList kept)) last := by
  have quiet : Logged (fun _ _ => False) compared :=
    quiet_of_calm (uses_keepSectors session regions sectors) Logged.nil stages.compare
  have erasesWritten : Erases (InSectors session (eraseList kept)) written := by
    rcases returns_eraseAndProgram stages.write with ⟨none, rfl⟩ | ⟨erased, erase, program⟩
    · rw [none]
      exact erases_of_quiet quiet
    · have erases := (holds_eraseSectors_erases accepted quiet session.eraseState).of_returns erase
      exact erases_of_returns (uses_programRegions session kept regions) (erases.2 rfl) program
  have erasesRestored := erases_of_returns ((uses_safeShutdown session).mono noErase_of_calm)
    erasesWritten stages.shutdown
  exact erases_of_returns ((uses_verifyRegions regions).mono noErase_of_calm) erasesRestored
    stages.verify

/-! ## The cells of an apply -/

/-- An operation that starts no command changes no cell. -/
theorem FlashTarget.cells_of_calmOp
    {target after : FlashTarget}
    {op : Op}
    {reply : Reply op}
    (calm : Calm op)
    (step : FlashTarget.device swapActive op target reply after) :
    after.cells = target.cells := by
  cases op with
  | write32 addr value => exact FlashTarget.cells_of_calm calm step
  | writeBlock addr data =>
      obtain ⟨acted, acts, rfl⟩ := step
      have acts : if addr = loaderBuffer then ∃ buffer',
          acted = { target with buffer := buffer' } ∧ (reply = true → buffer' = data)
          else acted = target := acts
      split at acts
      · obtain ⟨buffer', rfl, -⟩ := acts
        rfl
      · obtain rfl := acts
        rfl
  | runLoader cmd addr count timeoutMs =>
      cases cmd with
      | checksum =>
          obtain ⟨acted, ⟨rfl, -⟩, rfl⟩ := step
          rfl
      | program => exact absurd (calm []) (by simp [commandOf])
  | _ =>
      obtain ⟨acted, acts, rfl⟩ := step
      obtain rfl := acts
      rfl

theorem FlashTarget.cells_of_returns
    {program : Run α}
    {target last : FlashTarget}
    (uses : program.Uses Calm)
    (returns : program.Returns (FlashTarget.device swapActive) target result last) :
    last.cells = target.cells := by
  have holds : program.Holds (FlashTarget.device swapActive)
      (fun state => state.cells = target.cells) (fun _ _ => True) target :=
    Program.holds_of_uses (fun _ _ _ _ calm same step =>
      (FlashTarget.cells_of_calmOp calm step).trans same) uses rfl
  exact (holds.of_returns returns).1

theorem Stages.map
    {σ σ' : Type}
    {device : Device Op Reply σ}
    {device' : Device Op Reply σ'}
    {sectors : List Word}
    {first compared written restored last : σ}
    (view : σ → σ')
    (simulates : ∀ op state reply state', device op state reply state' →
      device' op (view state) reply (view state'))
    (stages : Stages device session regions sectors kept state first compared written restored
      last) :
    Stages device' session regions sectors kept state (view first) (view compared) (view written)
      (view restored) (view last) where
  compare := stages.compare.map view simulates
  write := stages.write.map view simulates
  shutdown := stages.shutdown.map view simulates
  verify := stages.verify.map view simulates

/-- The kept sectors are as they were but for the image in those that were erased. -/
theorem Stages.imaged
    {sectors : List Word}
    {first compared written restored last : HonestTarget}
    (stages : Stages (HonestTarget.device session.swapActive) session regions sectors kept state
      first compared written restored last)
    (placed : WellPlaced regions)
    (room : ∀ region ∈ regions, region.address + region.length < 2 ^ 32)
    (accepted : Accepted session regions (kept.map Prod.fst)) :
    Imaged session (InSectors session (eraseList kept)) first.flash.cells regions
      last.flash.cells := by
  have flash := stages.map HonestTarget.flash fun _ _ _ _ step => HonestTarget.device_flash step
  have cellsCompared := FlashTarget.cells_of_returns (uses_keepSectors session regions sectors)
    flash.compare
  have cellsRestored := FlashTarget.cells_of_returns (uses_safeShutdown session) flash.shutdown
  have cellsLast := FlashTarget.cells_of_returns (uses_verifyRegions regions) flash.verify
  rw [cellsLast, cellsRestored, ← cellsCompared]
  rcases returns_eraseAndProgram stages.write with ⟨none, rfl⟩ | ⟨erased, erase, program⟩
  · rw [none]
    have outside (command : Nat) : ¬InSectors session [] command := by
      rintro ⟨sector, impossible, -⟩
      exact absurd impossible List.not_mem_nil
    exact ⟨fun _ _ _ _ _ isErased => absurd isErased (outside _),
      fun _ _ _ isErased => absurd isErased (outside _), fun _ _ => rfl⟩
  · have acceptedErased : Accepted session regions (eraseList kept) :=
      accepted.sublist (sublist_eraseList kept)
    obtain ⟨spared, blank⟩ := (holds_eraseSectors_blank acceptedErased session.eraseState
      fun _ _ => rfl).of_returns erase
    have imaged : Imaged session (InSectors session (eraseList kept)) compared.flash.cells []
        erased.flash.cells :=
      ⟨fun _ none => absurd none List.not_mem_nil, fun _ _ _ isErased => blank rfl _ isErased,
        spared⟩
    have programmed : (programRegions session kept regions).Returns
        (FlashTarget.device session.swapActive) erased.flash (.ok ()) written.flash :=
      program.map HonestTarget.flash fun _ _ _ _ step => HonestTarget.device_flash step
    exact ((holds_programRegions_imaged placed room accepted [] regions rfl
      imaged).of_returns programmed).2 rfl

/-- The comparison goes through the sectors in order. -/
theorem holds_keepSectors_sectors
    {device : Device Op Reply σ}
    {first : σ}
    (session : FlashSession)
    (regions : List FlashRegion)
    (sectors : List Word) :
    (keepSectors session regions sectors).Holds device (fun _ => True)
      (fun kept _ => kept.map Prod.fst = sectors) first := by
  induction sectors generalizing first with
  | nil => exact ⟨trivial, rfl⟩
  | cons sector rest inductionHypothesis =>
      refine holds_anything.bind fun keep compared _ _ => ?_
      exact inductionHypothesis.bind fun others compared _ same =>
        ⟨trivial, congrArg (sector :: ·) same⟩

theorem Stages.sectors_eq
    {device : Device Op Reply σ}
    {sectors : List Word}
    {first compared written restored last : σ}
    (stages : Stages device session regions sectors kept state first compared written restored
      last) :
    kept.map Prod.fst = sectors :=
  ((holds_keepSectors_sectors session regions sectors).of_returns stages.compare).2

/-- A successful apply leaves the image in the sectors that it kept. -/
theorem apply_kept
    {target last : HonestTarget}
    (placed : WellPlaced regions)
    (room : ∀ region ∈ regions, region.address + region.length < 2 ^ 32)
    (returns : (tricoreFlashApply session regions).Returns
      (HonestTarget.device session.swapActive) target (.ok (), state) last) :
    ∃ sectors, Accepted session regions sectors ∧
      Imaged session (InSectors session sectors) target.flash.cells regions last.flash.cells := by
  obtain ⟨found, -, accepted, returns⟩ := sectors_of_returns placed returns
  obtain ⟨kept, compared, written, restored, stages⟩ := stages_of_returns returns
  rw [← stages.sectors_eq] at accepted
  exact ⟨eraseList kept, accepted.sublist (sublist_eraseList kept),
    stages.imaged placed room accepted⟩

/-- After a successful apply on a target that shows its errors, every cell is known: what
the erase commands covered holds the regions, padded to whole pages, and is blank between
them; all else is as before. -/
theorem apply_cells
    {target last : HonestTarget}
    (placed : WellPlaced regions)
    (room : ∀ region ∈ regions, region.address + region.length < 2 ^ 32)
    (noLog : target.flash.log = [])
    (returns : (tricoreFlashApply session regions).Returns
      (HonestTarget.device session.swapActive) target (.ok (), state) last) :
    Imaged session (EraseCommanded last.flash.log) target.flash.cells regions
      last.flash.cells := by
  obtain ⟨found, -, accepted, returns⟩ := sectors_of_returns placed returns
  obtain ⟨kept, compared, written, restored, stages⟩ := stages_of_returns returns
  have logged := stages.map (fun target => target.flash.log) fun _ _ _ _ step =>
    FlashTarget.device_logging step.1
  rw [noLog] at logged
  rw [← logged.sectors_eq] at accepted
  have imaged := stages.imaged placed room accepted
  have erases := logged.erases (accepted.sublist (sublist_eraseList kept))
  exact ⟨fun region member address uncached inPages commanded =>
      imaged.image region member address uncached inPages (erases.only _ commanded),
    fun address uncached inNone commanded =>
      imaged.blank address uncached inNone (erases.only _ commanded),
    fun command notCommanded =>
      imaged.outside command fun inSectors => notCommanded (erases.all _ inSectors)⟩

namespace FlashTarget

/-- A target that obeys shows no error. -/
theorem honest_of_obeying
    {target after : FlashTarget}
    (op : Op)
    (reply : Reply op)
    (step : obeying op target reply after) :
    HonestTarget.device false op ⟨target, false⟩ reply ⟨after, false⟩ := by
  obtain ⟨rfl, rfl⟩ := Prod.mk.inj step
  refine ⟨device_obey op target, ?_⟩
  cases op with
  | write32 addr value =>
      refine ⟨fun isAddr isErase _ => Or.inr ?_, fun _ impossible => by cases impossible⟩
      simp only [obeyed, isAddr, isErase, and_self, if_true]
  | read32 addr => exact ⟨rfl, fun _ impossible => by cases impossible⟩
  | runLoader cmd addr count timeoutMs => exact rfl
  | _ => exact rfl

end FlashTarget

/-- Two sectors are erased, and the first page of each holds its bytes and padding. -/
theorem apply_cells_pair :
    Imaged plainSession (EraseCommanded FlashTarget.finished.log) FlashTarget.unknown.cells
      pairRegions FlashTarget.finished.cells :=
  apply_cells wellPlaced_pairRegions (by decide) rfl
    (returns_finished.map (fun target => HonestTarget.mk target false)
      fun op _ reply _ step => FlashTarget.honest_of_obeying op reply step)

end Flash
end TriCoreDap
