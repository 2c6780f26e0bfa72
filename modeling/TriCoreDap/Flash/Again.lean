import TriCoreDap.Flash.Cells
import TriCoreDap.Flash.Crc32

/-!
# Applying an image again

The comparison pads the last page of a region with zeros where programming pads it with
erased bytes.  On a target that was just programmed, a second apply therefore finds every
sector equal except those that the first one erased and in which a region ends within a page.
-/

namespace TriCoreDap
namespace Flash

open Probe

variable {session : FlashSession} {regions : List FlashRegion} {swapActive : Bool}
  {region : FlashRegion} {kept : List (Word × Bool)} {cells : Nat → Byte} {low high : Nat}

/-- How a target answers whose loader, if `always`, reports every checksum. -/
def FlashTarget.answering (always : Prop) (swapActive : Bool) : Device Op Reply FlashTarget :=
  fun op target reply after => FlashTarget.device swapActive op target reply after ∧
    match op, reply with
    | .runLoader .checksum _ _ _, reply => always → reply ≠ none
    | _, _ => True

theorem FlashTarget.answering_false
    {target after : FlashTarget}
    (op : Op)
    (reply : Reply op)
    (step : FlashTarget.device swapActive op target reply after) :
    FlashTarget.answering False swapActive op target reply after := by
  refine ⟨step, ?_⟩
  cases op with
  | runLoader cmd addr count timeoutMs =>
      cases cmd with
      | checksum => exact False.elim
      | program => trivial
  | _ => trivial

/-! ## The comparison of a piece -/

/-- How many bytes the comparison adds to a piece. -/
def piecePadding (region : FlashRegion) (high : Nat) : Nat :=
  if high = region.stop then padding high else 0

/-- The CRC over the piece on the target is that of the piece in the image, padded with
zeros. -/
def PieceMatches
    (swapActive : Bool)
    (cells : Nat → Byte)
    (region : FlashRegion)
    (low high : Nat) : Prop :=
  low < high → crc32 (readBytes swapActive cells (toPhysical low)
    (high - low + piecePadding region high)) =
      crc32 (region.slice low high ++ List.replicate (piecePadding region high) 0)

theorem expected_eq (region : FlashRegion) (low high pad : Nat) :
    wordOnes - crc32Update (crc32Update wordOnes
        ((region.data.drop (low - region.address)).take (high - low))) (List.replicate pad 0) =
      crc32 (region.slice low high ++ List.replicate pad 0) := by
  rw [crc32, crc32Update_append]
  rfl

/-- A comparison that finds no difference was right, and one that finds some if the loader
answered. -/
def Decides (always : Prop) (differs : Bool) (matched : Prop) : Prop :=
  (differs = false → matched) ∧ (always → differs = true → ¬matched)

variable {always : Prop}

theorem holds_bytesDiffer
    (low high : Nat)
    {target : FlashTarget}
    (same : target.cells = cells) :
    (bytesDiffer region low high).Holds (FlashTarget.answering always swapActive)
      (fun target => target.cells = cells)
      (fun differs _ => Decides always differs (PieceMatches swapActive cells region low high))
      target := by
  unfold bytesDiffer
  split
  · next empty =>
      exact ⟨same, fun _ inside => absurd inside (Nat.not_lt_of_le empty),
        fun _ impossible => by cases impossible⟩
  · next inside =>
      extract_lets pad image expected count
      refine ⟨same, fun reply after step => ?_⟩
      obtain ⟨⟨acted, ⟨rfl, answers⟩, rfl⟩, answered⟩ := step
      cases reply with
      | none =>
          exact ⟨same, fun impossible => (by cases impossible),
            fun reports => absurd rfl (answered reports)⟩
      | some actual =>
          have onTarget := answers actual rfl
          rw [same] at onTarget
          refine ⟨same, fun equal _ => ?_, fun _ differs matched => ?_⟩
          · have actual_eq : actual = expected := by simpa using equal
            rw [actual_eq] at onTarget
            exact onTarget.symm.trans (expected_eq region low high pad)
          · have actual_eq : actual = expected := by
              rw [onTarget]
              exact (matched (Nat.lt_of_not_le inside)).trans
                (expected_eq region low high pad).symm
            rw [actual_eq] at differs
            simp at differs

/-- The sector's pieces of all regions match. -/
def SectorMatches
    (swapActive : Bool)
    (cells : Nat → Byte)
    (regions : List FlashRegion)
    (sector : Nat) : Prop :=
  ∀ region ∈ regions, PieceMatches swapActive cells region (overlapLow sector region)
    (overlapHigh sector region)

theorem holds_sectorDiffers
    (sector : Word)
    (regions : List FlashRegion)
    {target : FlashTarget}
    (same : target.cells = cells) :
    (sectorDiffers sector regions).Holds (FlashTarget.answering always swapActive)
      (fun target => target.cells = cells)
      (fun differs _ => Decides always differs (SectorMatches swapActive cells regions sector))
      target := by
  induction regions generalizing target with
  | nil =>
      exact ⟨same, fun _ _ member => absurd member List.not_mem_nil,
        fun _ impossible => by cases impossible⟩
  | cons region rest inductionHypothesis =>
      rw [sectorDiffers, regionDiffers]
      generalize lowEq : overlapLow sector region = low, highEq : overlapHigh sector region = high
      refine (holds_bytesDiffer low high same).bind fun differs target₁ same₁ decided₁ => ?_
      rw [← lowEq, ← highEq] at decided₁
      cases differs with
      | true =>
          exact ⟨same₁, fun impossible => (by cases impossible), fun reports _ matched =>
            decided₁.2 reports rfl (matched region List.mem_cons_self)⟩
      | false =>
          refine (inductionHypothesis same₁).mono (fun _ => id) fun differs target₂ _ decided₂ => ?_
          refine ⟨fun equal next member => ?_, fun reports differs matched =>
            decided₂.2 reports differs fun next member =>
              matched next (List.mem_cons_of_mem _ member)⟩
          rcases List.mem_cons.mp member with rfl | later
          · exact decided₁.1 rfl
          · exact decided₂.1 equal next later

/-- What the comparison says of the kept sectors and the others. -/
def Compared
    (always : Prop)
    (session : FlashSession)
    (regions : List FlashRegion)
    (cells : Nat → Byte)
    (kept : List (Word × Bool)) : Prop :=
  ∀ entry ∈ kept,
    (entry.2 = false → SectorMatches session.swapActive cells regions entry.1) ∧
      (always → session.differential = true → entry.2 = true →
        ¬SectorMatches session.swapActive cells regions entry.1)

theorem holds_keepSectors_compared
    (session : FlashSession)
    (regions : List FlashRegion)
    (sectors : List Word)
    {target : FlashTarget}
    (same : target.cells = cells) :
    (keepSectors session regions sectors).Holds
      (FlashTarget.answering always session.swapActive)
      (fun target => target.cells = cells)
      (fun kept _ => kept.map Prod.fst = sectors ∧ Compared always session regions cells kept)
      target := by
  induction sectors generalizing target with
  | nil => exact ⟨same, rfl, fun _ member => absurd member List.not_mem_nil⟩
  | cons sector rest inductionHypothesis =>
      have decides : (keepSector session regions sector).Holds
          (FlashTarget.answering always session.swapActive) (fun target => target.cells = cells)
          (fun keep _ =>
            (keep = false → SectorMatches session.swapActive cells regions sector) ∧
              (always → session.differential = true → keep = true →
                ¬SectorMatches session.swapActive cells regions sector)) target := by
        unfold keepSector
        split
        · next plain =>
            refine ⟨same, fun impossible => (by cases impossible), fun _ differential => ?_⟩
            rw [differential] at plain
            cases plain
        · exact (holds_sectorDiffers sector regions same).mono (fun _ => id)
            fun keep _ _ decided => ⟨decided.1, fun reports _ => decided.2 reports⟩
      refine decides.bind fun keep target₁ same₁ decided => ?_
      refine (inductionHypothesis same₁).bind fun others target₂ same₂ compared => ?_
      refine ⟨same₂, congrArg (sector :: ·) compared.1, fun entry member => ?_⟩
      rcases List.mem_cons.mp member with rfl | later
      · exact decided
      · exact compared.2 entry later

/-! ## The pieces of a sector -/

/-- A region's piece in a sector, with the padding that is compared. -/
structure PieceOf (region : FlashRegion) (sector low high : Nat) : Prop where
  above : sector ≤ low
  start : region.address ≤ low
  inside : high ≤ region.address + region.length
  within : low + (high - low + piecePadding region high) ≤ sector + flashSector
  inPages : ∀ index, index < high - low + piecePadding region high →
    InPages region (low + index)
  padded : ∀ index, high - low ≤ index → index < high - low + piecePadding region high →
    region.address + region.length ≤ low + index

theorem overlap_eq
    {sector : Nat}
    (programmable : Programmable session.chipid session.swapActive sector)
    (room : region.address + region.length < 2 ^ 32) :
    overlapLow sector region = max region.address sector ∧
      overlapHigh sector region = min (region.address + region.length) (sector + flashSector) := by
  have next_eq : u32 (sector + flashSector) = sector + flashSector :=
    u32_of_lt (Nat.lt_trans (Nat.add_lt_add_right programmable.sector_bounds.2 _) (by decide))
  have stop_eq : region.stop = region.address + region.length := u32_of_lt room
  rw [overlapLow, overlapHigh, next_eq, stop_eq]
  exact ⟨ite_gt_eq_max _ _, ite_lt_eq_min _ _⟩

/-- The padding of a piece that ends with the region, and of any other. -/
theorem piecePadding_eq (room : region.address + region.length < 2 ^ 32) (high : Nat) :
    high = region.address + region.length ∧ piecePadding region high = padding high ∨
      high ≠ region.address + region.length ∧ piecePadding region high = 0 := by
  have stop_eq : region.stop = region.address + region.length := u32_of_lt room
  rw [piecePadding, stop_eq]
  split_ifs with atStop
  · exact Or.inl ⟨atStop, rfl⟩
  · exact Or.inr ⟨atStop, rfl⟩

theorem pieceOf_overlap
    {sector : Nat}
    (programmable : Programmable session.chipid session.swapActive sector)
    (aligned : region.address % flashPage = 0)
    (room : region.address + region.length < 2 ^ 32)
    (inside : overlapLow sector region < overlapHigh sector region) :
    PieceOf region sector (overlapLow sector region) (overlapHigh sector region) := by
  have alignedSector := programmable.aligned
  obtain ⟨low_eq, high_eq⟩ := overlap_eq programmable room
  rw [low_eq] at inside ⊢
  generalize overlapHigh sector region = high at *
  have pad_eq := piecePadding_eq room high
  constructor
  · exact Nat.le_max_right _ _
  · exact Nat.le_max_left _ _
  · exact high_eq ▸ Nat.min_le_left _ _
  · simp only [padding, flashPage, flashSector] at *
    omega
  · intro index inPiece
    simp only [InPages, FlashRegion.Holds, alignDown, padding, flashPage, flashSector] at *
    omega
  · intro index behind inPiece
    omega

/-- The cells of a piece are in its sector. -/
theorem PieceOf.inSector
    {sector : Nat}
    (piece : PieceOf region sector low high)
    (programmable : Programmable session.chipid session.swapActive sector)
    (inPiece : index < high - low + piecePadding region high) :
    Uncached (low + index) ∧ InSector session sector (session.command (low + index)) := by
  have above := piece.above
  have within := piece.within
  have bounds := programmable.sector_bounds
  have inside : low + index - sector < flashSector := by omega
  have command := programmable.commandAddress_add inside
  rw [show sector + (low + index - sector) = low + index by omega] at command
  refine ⟨uncached_iff.mpr (Or.inr (by omega)), ?_⟩
  rw [InSector, FlashSession.command, FlashSession.command, command]
  omega

theorem PieceOf.toPhysical_low
    {sector : Nat}
    (piece : PieceOf region sector low high)
    (programmable : Programmable session.chipid session.swapActive sector)
    (inside : low < high) : toPhysical low = low :=
  (piece.inSector programmable (Nat.add_pos_left (Nat.sub_pos_of_lt inside) _)).1

theorem readBytes_congr
    {before after : Nat → Byte}
    (same : ∀ index, index < count → after (commandAddress swapActive (address + index)) =
      before (commandAddress swapActive (address + index))) :
    readBytes swapActive after address count = readBytes swapActive before address count :=
  List.map_congr_left fun index member => same index (List.mem_range.mp member)

theorem pieceMatches_congr
    {sector : Nat}
    {before after : Nat → Byte}
    (programmable : Programmable session.chipid session.swapActive sector)
    (same : ∀ command, InSector session sector command → after command = before command)
    (pieceOf : low < high → PieceOf region sector low high)
    (matched : PieceMatches session.swapActive before region low high) :
    PieceMatches session.swapActive after region low high := by
  intro inside
  have piece := pieceOf inside
  rw [← matched inside, piece.toPhysical_low programmable inside]
  congr 1
  exact readBytes_congr fun index inPiece => same _ (piece.inSector programmable inPiece).2

/-- Where the sector's cells are the same, its pieces match alike. -/
theorem sectorMatches_congr
    {sector : Nat}
    {before after : Nat → Byte}
    (placed : WellPlaced regions)
    (room : ∀ region ∈ regions, region.address + region.length < 2 ^ 32)
    (programmable : Programmable session.chipid session.swapActive sector)
    (same : ∀ command, InSector session sector command → after command = before command)
    (matched : SectorMatches session.swapActive before regions sector) :
    SectorMatches session.swapActive after regions sector := by
  intro region member
  exact pieceMatches_congr programmable same
    (pieceOf_overlap programmable (placed.aligned region member) (room region member))
    (matched region member)

/-- In an erased sector the target's piece is the image's, padded with erased bytes. -/
theorem readBytes_imaged
    {sector : Nat}
    {before : Nat → Byte}
    {sectors : List Word}
    (imaged : Imaged session (InSectors session sectors) before regions cells)
    (member : region ∈ regions)
    (programmable : Programmable session.chipid session.swapActive sector)
    (inErased : sector ∈ sectors)
    (inside : low < high)
    (piece : PieceOf region sector low high) :
    readBytes session.swapActive cells (toPhysical low)
        (high - low + piecePadding region high) =
      region.slice low high ++ List.replicate (piecePadding region high) flashErased := by
  have start := piece.start
  have stop := piece.inside
  have length : (region.slice low high).length = high - low := by
    have whole := FlashRegion.length_slice start (Nat.le_of_lt inside) stop
    omega
  rw [piece.toPhysical_low programmable inside]
  apply List.ext_getElem?
  intro index
  by_cases inPiece : index < high - low + piecePadding region high
  · obtain ⟨uncached, inSector⟩ := piece.inSector programmable inPiece
    have held := imaged.image region member (low + index) uncached (piece.inPages index inPiece)
      ⟨sector, inErased, inSector⟩
    rw [readBytes, List.getElem?_map, List.getElem?_range inPiece, Option.map_some]
    by_cases inSlice : index < high - low
    · have inData : low + index - region.address < region.data.length := by
        rw [FlashRegion.length] at stop
        omega
      rw [List.getElem?_append_left (by omega), FlashRegion.getElem?_slice start (by omega),
        List.getElem?_eq_getElem inData]
      refine congrArg some (held.trans ?_)
      rw [FlashRegion.padded, List.getD_eq_getElem?_getD, List.getElem?_eq_getElem inData,
        Option.getD_some]
    · have behind := piece.padded index (Nat.le_of_not_lt inSlice) inPiece
      rw [List.getElem?_append_right (by omega), List.getElem?_replicate, if_pos (by omega)]
      refine congrArg some (held.trans ?_)
      rw [FlashRegion.padded, List.getD_eq_getElem?_getD, List.getElem?_eq_none, Option.getD_none]
      rw [FlashRegion.length] at behind
      omega
  · rw [List.getElem?_eq_none, List.getElem?_eq_none]
    · rw [List.length_append, List.length_replicate, length]
      omega
    · rw [readBytes, List.length_map, List.length_range]
      omega

/-- The region ends in the sector, but not with one of its pages. -/
def EndsInside (region : FlashRegion) (sector : Nat) : Prop :=
  sector < region.address + region.length ∧
    region.address + region.length < sector + flashSector ∧
      (region.address + region.length) % flashPage ≠ 0

theorem endsInside_iff
    {sector : Nat}
    (programmable : Programmable session.chipid session.swapActive sector)
    (aligned : region.address % flashPage = 0)
    (room : region.address + region.length < 2 ^ 32) :
    EndsInside region sector ↔ overlapLow sector region < overlapHigh sector region ∧
      piecePadding region (overlapHigh sector region) ≠ 0 := by
  have alignedSector := programmable.aligned
  obtain ⟨low_eq, high_eq⟩ := overlap_eq programmable room
  have pad_eq := piecePadding_eq room (overlapHigh sector region)
  rw [low_eq]
  generalize overlapHigh sector region = high at *
  simp only [EndsInside, padding, flashPage, flashSector] at *
  omega

/-- Zeros and erased bytes in the padding are told apart. -/
theorem crc32_padded_iff (data : List Byte) (short : pad < flashPage) :
    crc32 (data ++ List.replicate pad flashErased) = crc32 (data ++ List.replicate pad 0) ↔
      pad = 0 := by
  constructor
  · intro same
    by_contra padded
    exact crc32_erased_ne data (Nat.pos_of_ne_zero padded) short same
  · rintro rfl
    rfl

theorem piecePadding_lt (region : FlashRegion) (high : Nat) :
    piecePadding region high < flashPage := by
  rw [piecePadding, padding]
  split_ifs
  · exact Nat.mod_lt _ (by decide)
  · decide

/-- An erased sector matches exactly where no region ends within a page of it. -/
theorem sectorMatches_imaged
    {sector : Nat}
    {before : Nat → Byte}
    {sectors : List Word}
    (placed : WellPlaced regions)
    (room : ∀ region ∈ regions, region.address + region.length < 2 ^ 32)
    (imaged : Imaged session (InSectors session sectors) before regions cells)
    (programmable : Programmable session.chipid session.swapActive sector)
    (inErased : sector ∈ sectors) :
    SectorMatches session.swapActive cells regions sector ↔
      ∀ region ∈ regions, ¬EndsInside region sector := by
  refine forall_congr' fun region => forall_congr' fun member => ?_
  have aligned := placed.aligned region member
  have pieceOf : overlapLow sector region < overlapHigh sector region → PieceOf region sector _ _ :=
    pieceOf_overlap programmable aligned (room region member)
  rw [endsInside_iff programmable aligned (room region member), not_and, not_not]
  refine forall_congr' fun inside => ?_
  rw [readBytes_imaged imaged member programmable inErased inside (pieceOf inside)]
  exact crc32_padded_iff _ (piecePadding_lt region _)

/-! ## The second run -/

theorem mem_eraseList_iff {sector : Word} :
    sector ∈ eraseList kept ↔ (sector, true) ∈ kept := by
  simp [eraseList]

/-- Each sector is in the list once. -/
theorem keep_unique
    {sector : Word}
    (ascending : (kept.map Prod.fst).Pairwise (· < ·))
    (first : (sector, keep) ∈ kept)
    (second : (sector, keep') ∈ kept) : keep = keep' := by
  have nodup : (kept.map Prod.fst).Nodup := ascending.imp Nat.ne_of_lt
  exact congrArg Prod.snd (List.inj_on_of_nodup_map nodup first second rfl)

/-- The erase commands of a log cover a sector exactly if it is one of those erased. -/
theorem sectorErased_iff
    {sector : Nat}
    {sectors : List Word}
    {log : List Event}
    (programmable : ∀ sector ∈ sectors, Programmable session.chipid session.swapActive sector)
    (erases : Erases (InSectors session sectors) log)
    (aligned : sector % flashSector = 0)
    (uncached : Uncached sector) :
    SectorErased session log sector ↔ sector ∈ sectors := by
  constructor
  · rintro ⟨offset, inside, commanded⟩
    obtain ⟨found, member, inSector⟩ : ∃ found : Nat, found ∈ sectors ∧ _ :=
      erases.only _ commanded
    have bounds := address_of_inSector (programmable found member)
      (uncached_sector aligned uncached inside) inSector
    have alignedFound := (programmable found member).aligned
    have same : found = sector := by
      simp only [flashSector] at *
      omega
    exact same ▸ member
  · intro member
    refine ⟨0, by decide, erases.all _ ⟨sector, member, ?_⟩⟩
    exact ⟨Nat.le_refl _, Nat.lt_add_of_pos_right (by decide)⟩

/-- The session of the next differential apply. -/
def FlashSession.again (session : FlashSession) (state : EraseState) : FlashSession :=
  { session with differential := true, eraseState := state }

/-- The next comparison keeps what was erased and is padded within a page. -/
theorem kept_again
    {sector : Word}
    {before : Nat → Byte}
    {again : List (Word × Bool)}
    (placed : WellPlaced regions)
    (room : ∀ region ∈ regions, region.address + region.length < 2 ^ 32)
    (accepted : Accepted session regions (kept.map Prod.fst))
    (same : again.map Prod.fst = kept.map Prod.fst)
    (first : Compared False session regions before kept)
    (second : Compared True (session.again state) regions cells again)
    (imaged : Imaged session (InSectors session (eraseList kept)) before regions cells) :
    (sector, true) ∈ again ↔
      (sector, true) ∈ kept ∧ ∃ region ∈ regions, EndsInside region sector := by
  have matches_iff (inKept : (sector, true) ∈ kept) :
      SectorMatches session.swapActive cells regions sector ↔
        ∀ region ∈ regions, ¬EndsInside region sector :=
    sectorMatches_imaged placed room imaged
      (accepted.programmable sector (List.mem_map_of_mem inKept)) (mem_eraseList_iff.mpr inKept)
  constructor
  · intro inAgain
    have differs := (second _ inAgain).2 trivial rfl rfl
    have member : sector ∈ kept.map Prod.fst := same ▸ List.mem_map_of_mem inAgain
    obtain ⟨⟨found, keep⟩, inKept, rfl⟩ := List.mem_map.mp member
    have programmable := accepted.programmable found member
    cases keep with
    | true =>
        refine ⟨inKept, ?_⟩
        by_contra noneEnds
        refine differs ((matches_iff inKept).mpr fun region isRegion ends => ?_)
        exact noneEnds ⟨region, isRegion, ends⟩
    | false =>
        -- what was skipped is as it was, and was found equal
        refine absurd ((first _ inKept).1 rfl) fun matched => differs ?_
        refine sectorMatches_congr placed room programmable (fun command inSector => ?_) matched
        refine imaged.outside command ?_
        rintro ⟨other, isErased, inOther⟩
        have inKept' := mem_eraseList_iff.mp isErased
        obtain rfl := sector_eq_of_inSector
          (accepted.programmable other (List.mem_map_of_mem inKept')) programmable inOther inSector
        cases keep_unique accepted.ascending inKept inKept'
  · rintro ⟨inKept, region, isRegion, ends⟩
    have member : sector ∈ again.map Prod.fst := same ▸ List.mem_map_of_mem inKept
    obtain ⟨⟨found, keep⟩, inAgain, rfl⟩ := List.mem_map.mp member
    cases keep with
    | true => exact inAgain
    | false =>
        have matched := (second _ inAgain).1 rfl
        exact absurd ends ((matches_iff inKept).mp matched region isRegion)

/-- After an apply that succeeded, a differential apply of the same image erases exactly the
sectors that the first one erased and in which a region ends within a page; where all regions
end with a page it starts no command. -/
theorem apply_again
    {target mid : HonestTarget}
    {last : FlashTarget}
    (placed : WellPlaced regions)
    (room : ∀ region ∈ regions, region.address + region.length < 2 ^ 32)
    (noLog : target.flash.log = [])
    (first : (tricoreFlashApply session regions).Returns
      (HonestTarget.device session.swapActive) target (.ok (), state) mid)
    (second : (tricoreFlashApply (session.again state) regions).Returns
      (FlashTarget.answering True session.swapActive) { mid.flash with log := [] }
      (.ok (), state') last) :
    (∀ sector, sector % flashSector = 0 → Uncached sector →
      (SectorErased session last.log sector ↔
        SectorErased session mid.flash.log sector ∧
          ∃ region ∈ regions, EndsInside region sector)) ∧
    ((∀ region ∈ regions, (region.address + region.length) % flashPage = 0) →
      Logged (fun _ _ => False) last.log) := by
  obtain ⟨found, collected, accepted, first⟩ := sectors_of_returns placed first
  obtain ⟨found', collected', -, second⟩ := sectors_of_returns placed second
  obtain rfl := Option.some.inj (collected.symm.trans collected')
  obtain ⟨kept, compared, written, restored, stages⟩ := stages_of_returns first
  obtain ⟨again, compared', written', restored', stages'⟩ := stages_of_returns second
  have logged := stages.map (fun target => target.flash.log) fun _ _ _ _ step =>
    FlashTarget.device_logging step.1
  rw [noLog] at logged
  have logged' := stages'.map FlashTarget.log fun _ _ _ _ step => FlashTarget.device_logging step.1
  have kept_eq := logged.sectors_eq
  have again_eq := logged'.sectors_eq
  have acceptedKept : Accepted session regions (kept.map Prod.fst) := kept_eq ▸ accepted
  have acceptedAgain : Accepted session regions (again.map Prod.fst) := again_eq ▸ accepted
  have imaged := stages.imaged placed room acceptedKept
  have comparedFirst : Compared False session regions target.flash.cells kept :=
    ((holds_keepSectors_compared session regions _ rfl).of_returns
      (stages.compare.map HonestTarget.flash fun op _ reply _ step =>
        FlashTarget.answering_false op reply step.1)).2.2
  have comparedAgain : Compared True (session.again state) regions mid.flash.cells again :=
    ((holds_keepSectors_compared (session.again state) regions _ rfl).of_returns
      stages'.compare).2.2
  have erased : ∀ sector, (sector, true) ∈ again ↔
      (sector, true) ∈ kept ∧ ∃ region ∈ regions, EndsInside region sector := fun sector =>
    kept_again placed room acceptedKept (again_eq.trans kept_eq.symm) comparedFirst comparedAgain
      imaged
  have programmable : ∀ {entries : List (Word × Bool)},
      Accepted session regions (entries.map Prod.fst) → ∀ sector ∈ eraseList entries,
        Programmable session.chipid session.swapActive sector := fun accepted sector member =>
    accepted.programmable sector (List.mem_map_of_mem (mem_eraseList_iff.mp member))
  have erases := logged.erases (acceptedKept.sublist (sublist_eraseList kept))
  have sublist := acceptedAgain.sublist (sublist_eraseList again)
  have erases' : Erases (InSectors session (eraseList again)) last.log :=
    logged'.erases ⟨sublist.ascending, sublist.programmable, sublist.touched⟩
  refine ⟨fun sector aligned uncached => ?_, fun ends => ?_⟩
  · rw [sectorErased_iff (programmable acceptedAgain) erases' aligned uncached,
      sectorErased_iff (programmable acceptedKept) erases aligned uncached,
      mem_eraseList_iff, mem_eraseList_iff]
    exact erased sector
  · have none : eraseList again = [] := by
      rw [List.eq_nil_iff_forall_not_mem]
      intro sector member
      obtain ⟨-, region, isRegion, -, -, within⟩ := (erased sector).mp (mem_eraseList_iff.mp member)
      exact within (ends region isRegion)
    have quiet := quiet_of_calm (uses_keepSectors _ regions _) Logged.nil logged'.compare
    have wrote : (eraseAndProgram (session.again state) regions again).Returns logging
        (FlashTarget.log compared') (.ok (), state') (FlashTarget.log written') := logged'.write
    rw [eraseAndProgram, if_pos none] at wrote
    have same := (Program.eq_of_returns_done wrote).2
    exact quiet_of_calm (uses_verifyRegions regions)
      (quiet_of_calm (uses_safeShutdown _) (same ▸ quiet) logged'.shutdown) logged'.verify

namespace FlashTarget

theorem answering_of_obeying
    {target after : FlashTarget}
    (op : Op)
    (reply : Reply op)
    (step : obeying op target reply after) :
    answering True false op target reply after := by
  obtain ⟨rfl, rfl⟩ := Prod.mk.inj step
  refine ⟨device_obey op target, ?_⟩
  cases op with
  | runLoader cmd addr count timeoutMs =>
      cases cmd with
      | checksum => exact fun _ => Option.some_ne_none _
      | program => trivial
  | _ => trivial

/-- After a second apply. -/
def finishedAgain : FlashTarget :=
  { finished with log := [] }.run
    (applySectors (plainSession.again ⟨true, 0⟩) pairRegions [0xA0000000, 0xA0008000])

end FlashTarget

theorem returns_finishedAgain :
    (tricoreFlashApply (plainSession.again ⟨true, 0⟩) pairRegions).Returns FlashTarget.obeying
      { FlashTarget.finished with log := [] } (.ok (), ⟨true, 0⟩) .finishedAgain := by
  rw [tricoreFlashApply_pairRegions (by decide)]
  exact FlashTarget.returns_obeying (by decide +kernel)

/-- The two bytes do not fill their page, so that their sector is erased again. -/
theorem apply_again_pair :
    SectorErased plainSession FlashTarget.finishedAgain.log 0xA0008000 ↔
      SectorErased plainSession FlashTarget.finished.log 0xA0008000 ∧
        ∃ region ∈ pairRegions, EndsInside region 0xA0008000 := by
  have first : (tricoreFlashApply plainSession pairRegions).Returns
      (HonestTarget.device plainSession.swapActive) ⟨.unknown, false⟩ (.ok (), ⟨true, 0⟩)
      ⟨.finished, false⟩ :=
    returns_finished.map (fun target => HonestTarget.mk target false)
      fun op _ reply _ step => FlashTarget.honest_of_obeying op reply step
  have second : (tricoreFlashApply (plainSession.again ⟨true, 0⟩) pairRegions).Returns
      (FlashTarget.answering True plainSession.swapActive)
      { (HonestTarget.mk .finished false).flash with log := [] } (.ok (), ⟨true, 0⟩)
      .finishedAgain :=
    returns_finishedAgain.map id
      fun op _ reply _ step => FlashTarget.answering_of_obeying op reply step
  exact (apply_again wellPlaced_pairRegions (by decide) rfl first second).1 0xA0008000
    (by decide) (uncached_iff.mpr (Or.inr (by decide)))

end Flash
end TriCoreDap
