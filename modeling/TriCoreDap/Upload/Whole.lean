import TriCoreDap.Upload.Files
import Mathlib.Order.Lattice.Nat

/-!
# Accepted uploads

An upload that is accepted takes its file whole exactly when each line of the file
is one record, no record crosses a border, and no empty record lies apart.
-/

namespace TriCoreDap
namespace Upload

open Flash Ucb HexImage

/-- The image can be programmed. -/
def Image.Accepted (image : Image) : Prop := image.bad = false ∧ image.bytes ≠ 0

/-- The region of `flash_task`: whole pages, the padding erased. -/
def flashRegion (image : Image) : FlashRegion :=
  let start := alignDown image.lowest flashPage
  let stop := alignDown (u32 (image.highest + (flashPage - 1))) flashPage
  ⟨start, (List.range (sub32 stop start)).map fun offset =>
    image.data (sub32 start pflashBase + offset)⟩

/-- A byte of the program flash is among the cells. -/
def DataAt (cells : List (Cell × Byte)) (index : Nat) : Prop :=
  ∃ write ∈ cells, write.1 = .data index

/-- A byte of the slot is among the cells. -/
def SlotAt (cells : List (Cell × Byte)) (slot : Nat) : Prop :=
  ∃ write ∈ cells, ∃ index, write.1 = .ucb index ∧ index / ucbSize = slot

/-- The index lies within the pages from the first to the last that hold a byte of
the program flash. -/
def WithinPages (cells : List (Cell × Byte)) (index : Nat) : Prop :=
  (∃ low, DataAt cells low ∧ alignDown low flashPage ≤ index) ∧
    ∃ high, DataAt cells high ∧ index ≤ alignDown high flashPage + flashPage

/-- The smallest range of whole pages that holds the bytes of the program flash,
gaps erased. -/
structure SmallestPages (cells : List (Cell × Byte)) (region : FlashRegion) : Prop where
  aligned : region.address % flashPage = 0 ∧ region.length % flashPage = 0
  holds : ∀ index, DataAt cells index →
    region.address ≤ pflashBase + index ∧ pflashBase + index < region.address + region.length
  least : ∀ start stop, start % flashPage = 0 → stop % flashPage = 0 →
    (∀ index, DataAt cells index → start ≤ pflashBase + index ∧ pflashBase + index < stop) →
      start ≤ region.address ∧ region.address + region.length ≤ stop
  data : ∀ offset < region.length, region.data[offset]? =
    some ((lastWrite cells (.data (region.address - pflashBase + offset))).getD flashErased)

/-- The file is made of records, all of them and nothing else is taken, and the
image holds their bytes. -/
structure TakesWhole (file : List Byte) (image : Image) : Prop where
  formed : ∀ text ∈ colonTexts file, WellFormedText text
  taken : image.taken = colonTexts file
  stored : image.cells = fileCells file
  data : ∀ index,
    image.data index = (lastWrite (fileCells file) (.data index)).getD flashErased
  ucb : ∀ index, image.ucb index = (lastWrite (fileCells file) (.ucb index)).getD 0
  present : ∀ slot, image.ucbPresent.testBit slot = true ↔ SlotAt (fileCells file) slot
  region : SmallestPages (fileCells file) (flashRegion image)

/-- Each line holds one record or nothing, no data record crosses a border, and a
data record without bytes in the program flash lies within the pages of the others. -/
structure Plain (file : List Byte) : Prop where
  lines : ∀ line ∈ fileLines [] file, OneRecord line
  within : ∀ record ∈ placed 0 (colonTexts file),
    record.2.kind = 0 → ¬record.2.Crosses record.1
  empty : ∀ record ∈ placed 0 (colonTexts file),
    record.2.kind = 0 → record.2.count = 0 →
      pflashBase ≤ record.2.address record.1 → record.2.address record.1 ≤ pflashEnd →
        WithinPages (fileCells file) (record.2.address record.1 - pflashBase)

variable {record : HexRecord} {upper index slot : Nat} {image : Image} {text file : List Byte}
  {cells : List (Cell × Byte)}

/-! ## Accepted texts -/

theorem readRecord_formed (ok : readRecord text = .ok record) : WellFormedText text := by
  unfold readRecord at ok
  split_ifs at ok
  cases decoded : decodeHex text with
  | none =>
      rw [decoded] at ok
      cases ok
  | some raw =>
      rw [decoded] at ok
      dsimp only at ok
      split_ifs at ok with length sum
      exact ⟨raw, decoded, not_not.mp length, not_not.mp sum⟩

/-- An overlong record is never accepted. -/
theorem Image.takePieces_overlong
    {pieces : List Piece}
    (image : Image)
    (member : .overlong ∈ pieces) : (pieces.foldl Image.takePiece image).bad = true := by
  induction pieces generalizing image with
  | nil => cases member
  | cons piece rest inductionHypothesis =>
      rw [List.foldl_cons]
      rcases List.mem_cons.mp member with rfl | later
      · have refused : (image.takePiece .overlong).bad = true := by
          cases bad : image.bad <;> simp [Image.takePiece, Image.fail, bad]
        rw [Image.takePiece_bad refused, refused]
      · exact inductionHypothesis _ later

/-- What an image that is not refused took of the texts. -/
structure Image.Took (image image' : Image) (texts : List (List Byte)) : Prop where
  read : ∀ text ∈ texts, ∃ record, readRecord text = .ok record
  taken : image'.taken = image.taken ++ texts
  stores : image'.stores =
    image.stores ++ (placed image.upper texts).flatMap fun record => record.2.stores record.1
  accepted : ∀ record ∈ placed image.upper texts, record.2.refused record.1 = false

theorem Image.takePieces_took
    (good : image.bad = false)
    (texts : List (List Byte))
    (accepted : ((texts.map .text).foldl Image.takePiece image).bad = false) :
    image.Took ((texts.map .text).foldl Image.takePiece image) texts := by
  induction texts generalizing image with
  | nil =>
      constructor
      · exact fun _ member => absurd member List.not_mem_nil
      · exact (List.append_nil _).symm
      · exact (List.append_nil _).symm
      · exact fun _ member => absurd member List.not_mem_nil
  | cons text rest inductionHypothesis =>
      rw [List.map_cons, List.foldl_cons, Image.takePiece_text good] at accepted ⊢
      have good' : (image.parseRecord text).bad = false := by
        by_contra bad
        rw [Bool.not_eq_false] at bad
        rw [Image.takePiece_bad bad, bad] at accepted
        cases accepted
      cases read : readRecord text with
      | error why =>
          rw [Image.parseRecord_error good read] at good'
          cases good'
      | ok record =>
          obtain ⟨bad, upper, stores, taken⟩ := Image.parseRecord_ok good read
          have fine : record.refused image.upper = false := bad.symm.trans good'
          have later := inductionHypothesis good' accepted
          have first : placed image.upper (text :: rest) =
              (image.upper, record) :: placed (image.parseRecord text).upper rest := by
            rw [placed, read, upper fine]
          constructor
          · rw [List.forall_mem_cons]
            exact ⟨⟨record, read⟩, later.read⟩
          · rw [later.taken, taken]
            exact List.append_assoc _ [text] rest
          · rw [later.stores, stores, first, List.flatMap_cons]
            exact List.append_assoc _ _ _
          · rw [first, List.forall_mem_cons]
            exact ⟨fine, later.accepted⟩

/-- The texts that are taken of a file. -/
def takenTexts (file : List Byte) : List (List Byte) := (fileLines [] file).flatMap lineTexts

/-- An upload that is not refused took the texts of its lines. -/
theorem upload_took (chunks : List (List Byte)) (good : (upload true chunks).bad = false) :
    Image.reset.Took (upload true chunks).toImage (takenTexts chunks.flatten) := by
  rw [upload_pieces] at good ⊢
  have short : Piece.overlong ∉ pieces true [] chunks.flatten := by
    intro member
    rw [Image.takePieces_overlong .reset member] at good
    cases good
  have texts := pieces_lines [] chunks.flatten short
  rw [show lineText [] = [] from rfl] at texts
  rw [texts] at good ⊢
  exact Image.takePieces_took rfl _ good

/-! ## Cells and slots -/

theorem flatMap_stores (records : List (Nat × HexRecord)) :
    (records.flatMap fun record => record.2.stores record.1).flatMap Store.cells =
      records.flatMap fun record => record.2.stored record.1 :=
  List.flatMap_assoc

theorem mem_slotsOf (ordered : first ≤ last) :
    slot ∈ Image.slotsOf first last ↔ first / ucbSize ≤ slot ∧ slot ≤ last / ucbSize := by
  have quotients : first / ucbSize ≤ last / ucbSize := Nat.div_le_div_right ordered
  unfold Image.slotsOf
  rw [List.mem_map]
  constructor
  · rintro ⟨offset, inside, rfl⟩
    have range := List.mem_range.mp inside
    omega
  · rintro ⟨above, below⟩
    exact ⟨slot - first / ucbSize, List.mem_range.mpr (by omega), by omega⟩

/-- A record marks the slots of the bytes that it stores. -/
theorem HexRecord.present_iff (upper : Nat) (record : HexRecord) (slot : Nat) :
    .present slot ∈ record.stores upper ↔ SlotAt (record.stored upper) slot := by
  have length : record.payload.length = record.count := rfl
  by_cases idle : record.kind ≠ 0 ∨ record.refused upper = true
  · simp [HexRecord.stored, HexRecord.stores, idle, SlotAt]
  · have data : record.kind = 0 := by
      by_contra kind
      exact idle (Or.inl kind)
    by_cases ucb : record.InUcb upper
    · have marks : .present slot ∈ record.stores upper ↔ slot ∈ record.slots upper := by
        simp [HexRecord.stores, idle, ucb]
      rw [marks, HexRecord.stored_ucb data ucb, HexRecord.slots]
      generalize record.address upper - ucbBase = start
      by_cases empty : record.count = 0
      · have none : record.payload = [] := List.eq_nil_of_length_eq_zero empty
        simp [empty, none, SlotAt, writesFrom]
      · rw [if_pos empty, mem_slotsOf (by omega)]
        constructor
        · rintro ⟨above, below⟩
          unfold ucbSize at above below
          have inside : slot * 512 - start < record.payload.length := by omega
          obtain ⟨write, member, here⟩ := exists_writesFrom Cell.ucb start record.payload inside
          refine ⟨write, member, _, here, ?_⟩
          unfold ucbSize
          omega
        · rintro ⟨write, member, index, here, rfl⟩
          obtain ⟨offset, inside, there⟩ := mem_writesFrom member
          have same : index = start + offset := Cell.ucb.inj (here.symm.trans there)
          unfold ucbSize
          omega
    · have none : .present slot ∉ record.stores upper := by
        unfold HexRecord.stores
        split_ifs <;> simp
      apply iff_of_false none
      rintro ⟨write, member, index, here, -⟩
      by_cases outside : record.Outside upper
      · rw [HexRecord.stored_outside ucb outside] at member
        cases member
      · have accepted : record.refused upper = false := by
          by_contra refused
          exact idle (Or.inr (Bool.not_eq_false _ ▸ refused))
        rw [HexRecord.stored_data data accepted ucb outside] at member
        obtain ⟨offset, -, there⟩ := mem_writesFrom member
        rw [here] at there
        cases there

/-- A store in the program flash lies in the part of the buffer that the probe
holds. -/
theorem HexRecord.data_bounded (member : .data index bytes ∈ record.stores upper) :
    record.kind = 0 ∧ record.refused upper = false ∧ ¬record.InUcb upper ∧
      ¬record.Outside upper ∧ index = record.address upper - pflashBase ∧
        bytes = record.payload ∧ index + bytes.length ≤ imageMaxBytes := by
  unfold HexRecord.stores at member
  split_ifs at member with idle ucb outside
  · cases member
  · simp at member
  · cases member
  · simp only [not_or, Bool.not_eq_true, not_not] at idle
    obtain ⟨data, accepted⟩ := idle
    have low : record.address upper + record.count < 2 ^ 32 := by
      by_contra high
      exact ucb (HexRecord.inUcb_of_high (Nat.le_of_not_lt high))
    have fits : u32 (record.address upper - pflashBase + record.count) ≤ imageMaxBytes := by
      simpa [HexRecord.refused, data, ucb, outside] using accepted
    rw [u32_of_lt (by omega)] at fits
    have same := List.mem_singleton.mp member
    have index_eq := (Store.data.inj same).1
    have bytes_eq := (Store.data.inj same).2
    refine ⟨data, accepted, ucb, outside, index_eq, bytes_eq, ?_⟩
    rw [index_eq, bytes_eq]
    exact fits

/-! ## Pages -/

theorem alignDown_le (value : Nat) : alignDown value flashPage ≤ value := Nat.div_mul_le_self _ _

/-- What the image says of the range of its program flash, once it has some. -/
structure Image.Ranges (image : Image) (lowest highest : Nat) : Prop where
  lowest_eq : image.lowest = pflashBase + lowest
  highest_eq : image.highest = pflashBase + highest
  bounded : highest ≤ imageMaxBytes
  range : ∀ index bytes, .data index bytes ∈ image.stores →
    lowest ≤ index ∧ index + bytes.length ≤ highest
  lowest_stored : ∃ bytes, .data lowest bytes ∈ image.stores
  highest_stored : ∃ index bytes, .data index bytes ∈ image.stores ∧
    highest = index + bytes.length

theorem dataAt_cells :
    DataAt image.cells index ↔
      ∃ start bytes, .data start bytes ∈ image.stores ∧ start ≤ index ∧
        index < start + bytes.length := by
  constructor
  · rintro ⟨write, member, here⟩
    obtain ⟨store, inStores, inStore⟩ := List.mem_flatMap.mp member
    cases store with
    | data start bytes =>
        obtain ⟨offset, inside, there⟩ := mem_writesFrom inStore
        have same : index = start + offset := Cell.data.inj (here.symm.trans there)
        exact ⟨start, bytes, inStores, by omega, by omega⟩
    | ucb start bytes =>
        obtain ⟨offset, -, there⟩ := mem_writesFrom inStore
        rw [here] at there
        cases there
    | present slot => cases inStore
  · rintro ⟨start, bytes, inStores, above, below⟩
    have inside : index - start < bytes.length := by omega
    obtain ⟨write, member, here⟩ := exists_writesFrom Cell.data start bytes inside
    refine ⟨write, List.mem_flatMap.mpr ⟨_, inStores, member⟩, ?_⟩
    rw [here, Nat.add_sub_cancel' above]

/-- The range of an image with a byte of the program flash. -/
theorem Image.Consistent.ranges
    (consistent : image.Consistent)
    (bounded : ∀ index bytes, .data index bytes ∈ image.stores →
      index + bytes.length ≤ imageMaxBytes)
    (some : image.bytes ≠ 0) :
    ∃ lowest highest, image.Ranges lowest highest := by
  obtain ⟨start, bytes, member, full⟩ := consistent.bytes some
  have low := consistent.lowest _ _ member
  have high := consistent.highest _ _ member
  have small := bounded _ _ member
  have nonempty : 0 < bytes.length := List.length_pos_iff.mpr full
  rcases consistent.lowest_stored with unset | ⟨lowest, lowestBytes, lowestStored, lowest_eq⟩
  · exfalso
    rw [unset] at low
    unfold pflashBase at low
    unfold imageMaxBytes at small
    omega
  · rcases consistent.highest_stored with unset | ⟨last, lastBytes, highestStored, highest_eq⟩
    · exfalso
      rw [unset] at high
      omega
    · refine ⟨lowest, last + lastBytes.length, lowest_eq, ?_, bounded _ _ highestStored, ?_,
        ⟨lowestBytes, lowestStored⟩, ⟨last, lastBytes, highestStored, rfl⟩⟩
      · rw [highest_eq, Nat.add_assoc]
      · intro index bytes stored
        have above := consistent.lowest _ _ stored
        have below := consistent.highest _ _ stored
        omega

/-- The region in indices of the buffer. -/
theorem Image.Ranges.region
    {low high : Nat}
    (ranges : image.Ranges low high) :
    (flashRegion image).address = pflashBase + alignDown low flashPage ∧
      (flashRegion image).address + (flashRegion image).length =
        pflashBase + alignDown (high + 31) flashPage ∧
          ∀ offset < (flashRegion image).length, (flashRegion image).data[offset]? =
            some (image.data (alignDown low flashPage + offset)) := by
  obtain ⟨bytes, stored⟩ := ranges.lowest_stored
  have ordered := ranges.range _ _ stored
  have bounded := ranges.bounded
  have start : alignDown image.lowest flashPage = pflashBase + alignDown low flashPage := by
    rw [ranges.lowest_eq]
    unfold alignDown pflashBase flashPage
    omega
  have stop : alignDown (u32 (image.highest + (flashPage - 1))) flashPage =
      pflashBase + alignDown (high + 31) flashPage := by
    have small : image.highest + (flashPage - 1) < 2 ^ 32 := by
      rw [ranges.highest_eq]
      unfold imageMaxBytes at bounded
      unfold pflashBase flashPage
      omega
    rw [u32_of_lt small, ranges.highest_eq]
    unfold alignDown pflashBase flashPage
    omega
  have le : alignDown low flashPage ≤ alignDown (high + 31) flashPage := by
    unfold alignDown flashPage
    omega
  have length : sub32 (pflashBase + alignDown (high + 31) flashPage)
      (pflashBase + alignDown low flashPage) =
        alignDown (high + 31) flashPage - alignDown low flashPage := by
    unfold imageMaxBytes at bounded
    unfold alignDown flashPage at *
    unfold sub32 u32 pflashBase
    omega
  have offset : sub32 (pflashBase + alignDown low flashPage) pflashBase =
      alignDown low flashPage := by
    unfold imageMaxBytes at bounded
    unfold alignDown flashPage at *
    unfold sub32 u32 pflashBase
    omega
  have region : flashRegion image = ⟨pflashBase + alignDown low flashPage,
      (List.range (alignDown (high + 31) flashPage - alignDown low flashPage)).map
        fun offset => image.data (alignDown low flashPage + offset)⟩ := by
    unfold flashRegion
    simp only [start, stop, length, offset]
  have length_eq : (flashRegion image).length =
      alignDown (high + 31) flashPage - alignDown low flashPage := by
    rw [region, FlashRegion.length, List.length_map, List.length_range]
  refine ⟨by rw [region], ?_, ?_⟩
  · rw [length_eq, region]
    dsimp only
    omega
  · intro offset inside
    rw [length_eq] at inside
    rw [region]
    simp [inside]

/-- The region is the smallest exactly when the empty stores lie within the pages
of the others. -/
theorem smallestPages_iff
    (consistent : image.Consistent)
    (bounded : ∀ index bytes, .data index bytes ∈ image.stores →
      index + bytes.length ≤ imageMaxBytes)
    (some : image.bytes ≠ 0) :
    SmallestPages image.cells (flashRegion image) ↔
      ∀ index, .data index [] ∈ image.stores → WithinPages image.cells index := by
  obtain ⟨low, high, ranges⟩ := consistent.ranges bounded some
  obtain ⟨address, stop, data⟩ := ranges.region
  constructor
  · intro smallest index stored
    have inside := ranges.range _ _ stored
    have nonempty : {index | DataAt image.cells index}.Nonempty := by
      obtain ⟨start, bytes, member, full⟩ := consistent.bytes some
      have length : 0 < bytes.length := List.length_pos_iff.mpr full
      exact ⟨start, dataAt_cells.mpr ⟨start, bytes, member, Nat.le_refl _, by omega⟩⟩
    have above : BddAbove {index | DataAt image.cells index} := by
      refine ⟨high, ?_⟩
      intro index at_
      obtain ⟨start, bytes, member, -, below⟩ := dataAt_cells.mp at_
      have range := ranges.range _ _ member
      omega
    have lowest := Nat.sInf_mem nonempty
    have highest := Nat.sSup_mem nonempty above
    have least := smallest.least
      (pflashBase + alignDown (sInf {index | DataAt image.cells index}) flashPage)
      (pflashBase + (alignDown (sSup {index | DataAt image.cells index}) flashPage + flashPage))
      (by unfold pflashBase alignDown flashPage; omega)
      (by unfold pflashBase alignDown flashPage; omega)
      (by
        intro index at_
        have first : sInf {index | DataAt image.cells index} ≤ index := Nat.sInf_le at_
        have last : index ≤ sSup {index | DataAt image.cells index} := le_csSup above at_
        unfold alignDown flashPage
        omega)
    rw [stop, address] at least
    unfold alignDown flashPage at least
    rw [List.length_nil] at inside
    refine ⟨⟨_, lowest, ?_⟩, ⟨_, highest, ?_⟩⟩
    · unfold alignDown flashPage
      omega
    · unfold alignDown flashPage
      omega
  · intro within
    constructor
    · rw [address] at stop ⊢
      unfold alignDown flashPage pflashBase at *
      omega
    · intro index at_
      obtain ⟨start, bytes, member, above, below⟩ := dataAt_cells.mp at_
      have range := ranges.range _ _ member
      rw [stop, address]
      unfold alignDown flashPage
      omega
    · intro start stop' startAligned stopAligned holds
      rw [stop, address]
      constructor
      · obtain ⟨bytes, stored⟩ := ranges.lowest_stored
        have reached : ∃ index, DataAt image.cells index ∧ alignDown index flashPage ≤ low := by
          by_cases empty : bytes = []
          · subst empty
            exact (within low stored).1
          · have length : 0 < bytes.length := List.length_pos_iff.mpr empty
            exact ⟨low, dataAt_cells.mpr ⟨low, bytes, stored, Nat.le_refl _, by omega⟩,
              alignDown_le low⟩
        obtain ⟨index, at_, le⟩ := reached
        have inside := holds index at_
        unfold alignDown flashPage pflashBase at *
        omega
      · obtain ⟨first, bytes, stored, high_eq⟩ := ranges.highest_stored
        have reached : ∃ index, DataAt image.cells index ∧
            high ≤ alignDown index flashPage + flashPage := by
          by_cases empty : bytes = []
          · subst empty
            rw [high_eq]
            exact (within first stored).2
          · have length : 0 < bytes.length := List.length_pos_iff.mpr empty
            refine ⟨high - 1, dataAt_cells.mpr ⟨first, bytes, stored, by omega, by omega⟩, ?_⟩
            unfold alignDown flashPage
            omega
        obtain ⟨index, at_, le⟩ := reached
        have inside := holds index at_
        unfold alignDown flashPage pflashBase at *
        omega
    · intro offset inside
      rw [data offset inside, consistent.data, address, Nat.add_sub_cancel_left]

/-! ## Whole files -/

/-- What an accepted upload has stored. -/
theorem Image.Took.cells_eq (took : Image.reset.Took image texts) :
    image.cells = (placed 0 texts).flatMap fun record => record.2.stored record.1 := by
  rw [Image.cells, took.stores]
  exact flatMap_stores _

theorem Image.Took.mem_stores (took : Image.reset.Took image texts) (store : Store) :
    store ∈ image.stores ↔ ∃ record ∈ placed 0 texts, store ∈ record.2.stores record.1 := by
  rw [took.stores]
  exact List.mem_flatMap

theorem Image.Took.bounded (took : Image.reset.Took image texts) :
    ∀ index bytes, .data index bytes ∈ image.stores → index + bytes.length ≤ imageMaxBytes := by
  intro index bytes stored
  obtain ⟨record, -, inRecord⟩ := (took.mem_stores _).mp stored
  obtain ⟨-, -, -, -, -, -, bound⟩ := HexRecord.data_bounded inRecord
  exact bound

theorem Image.Took.present_iff (took : Image.reset.Took image texts) (slot : Nat) :
    .present slot ∈ image.stores ↔ SlotAt image.cells slot := by
  rw [took.mem_stores, took.cells_eq]
  constructor
  · rintro ⟨record, member, stored⟩
    obtain ⟨write, inRecord, here⟩ := (HexRecord.present_iff _ _ _).mp stored
    exact ⟨write, List.mem_flatMap.mpr ⟨record, member, inRecord⟩, here⟩
  · rintro ⟨write, inRecords, here⟩
    obtain ⟨record, member, inRecord⟩ := List.mem_flatMap.mp inRecords
    exact ⟨record, member, (HexRecord.present_iff _ _ _).mpr ⟨write, inRecord, here⟩⟩

/-- The empty stores are the data records without bytes in the program flash. -/
theorem Image.Took.empty_iff (took : Image.reset.Took image texts) :
    (∀ index, .data index [] ∈ image.stores → WithinPages cells index) ↔
      ∀ record ∈ placed 0 texts, record.2.kind = 0 → record.2.count = 0 →
        pflashBase ≤ record.2.address record.1 → record.2.address record.1 ≤ pflashEnd →
          WithinPages cells (record.2.address record.1 - pflashBase) := by
  constructor
  · intro within record member data empty above below
    apply within
    apply (took.mem_stores _).mpr
    refine ⟨record, member, ?_⟩
    have payload : record.2.payload = [] := List.eq_nil_of_length_eq_zero empty
    have stop : record.2.stop record.1 = record.2.address record.1 := by
      rw [HexRecord.stop, empty, Nat.add_zero, u32_of_lt (HexRecord.address_lt _ _)]
    have ucb : ¬record.2.InUcb record.1 := by
      unfold HexRecord.InUcb
      unfold pflashEnd at below
      unfold ucbBase
      omega
    have outside : ¬record.2.Outside record.1 := by
      unfold HexRecord.Outside
      omega
    simp [HexRecord.stores, data, took.accepted record member, ucb, outside, payload]
  · intro within index stored
    obtain ⟨record, member, inRecord⟩ := (took.mem_stores _).mp stored
    obtain ⟨data, -, ucb, outside, index_eq, payload, -⟩ := HexRecord.data_bounded inRecord
    have empty : record.2.count = 0 := by rw [HexRecord.count, ← payload, List.length_nil]
    have stop : record.2.stop record.1 = record.2.address record.1 := by
      rw [HexRecord.stop, empty, Nat.add_zero, u32_of_lt (HexRecord.address_lt _ _)]
    unfold HexRecord.Outside at outside
    rw [index_eq]
    exact within record member data empty (by omega) (by omega)

/-- Of accepted records, what is stored is what the file says exactly when none
crosses a border. -/
theorem Image.Took.cells_iff (took : Image.reset.Took image texts) :
    image.cells = ((placed 0 texts).flatMap fun record => record.2.cells record.1) ↔
      ∀ record ∈ placed 0 texts, record.2.kind = 0 → ¬record.2.Crosses record.1 := by
  rw [took.cells_eq]
  constructor
  · intro same
    have inside : ∀ record ∈ placed 0 texts, ¬record.2.Wraps record.1 := by
      intro record member wraps
      obtain ⟨write, inRecord, outside⟩ := HexRecord.stored_wraps wraps
      have inFile : write ∈ (placed 0 texts).flatMap fun record => record.2.cells record.1 := by
        rw [← same]
        exact List.mem_flatMap.mpr ⟨record, member, inRecord⟩
      obtain ⟨other, -, inOther⟩ := List.mem_flatMap.mp inFile
      exact outside (HexRecord.cells_inBounds inOther)
    have le : ∀ record ∈ placed 0 texts,
        (record.2.stored record.1).length ≤ (record.2.cells record.1).length := by
      intro record member
      by_cases crosses : record.2.kind = 0 ∧ record.2.Crosses record.1
      · obtain ⟨none, -⟩ :=
          HexRecord.stored_crosses crosses.1 (inside record member) crosses.2
        rw [none]
        exact Nat.zero_le _
      · have equal := HexRecord.stored_eq (took.accepted record member)
          (fun data crosses' => crosses ⟨data, crosses'⟩)
        rw [equal]
    have each := length_flatMap_eq le (by rw [same])
    intro record member data crosses
    obtain ⟨none, some⟩ := HexRecord.stored_crosses data (inside record member) crosses
    have length := each record member
    rw [none, List.length_nil] at length
    exact some (List.eq_nil_of_length_eq_zero length.symm)
  · intro within
    rw [List.flatMap_def, List.flatMap_def]
    congr 1
    apply List.map_congr_left
    intro record member
    exact HexRecord.stored_eq (took.accepted record member) (within record member)

/-- For every upload in any chunks that is accepted: the file is taken whole exactly
when each of its lines is one record, no record crosses a border, and no empty
record lies apart. -/
theorem accepted_takes_whole_iff
    (chunks : List (List Byte))
    (accepted : (upload true chunks).toImage.Accepted) :
    TakesWhole chunks.flatten (upload true chunks).toImage ↔ Plain chunks.flatten := by
  obtain ⟨good, some⟩ := accepted
  have took := upload_took chunks good
  have consistent := upload_consistent true chunks
  generalize (upload true chunks).toImage = image at *
  generalize chunks.flatten = file at *
  have takenEq : image.taken = takenTexts file := took.taken
  have formed : ∀ line ∈ fileLines [] file, ∀ text ∈ lineTexts line, WellFormedText text := by
    intro line inFile text inLine
    obtain ⟨record, read⟩ := took.read text (List.mem_flatMap.mpr ⟨line, inFile, inLine⟩)
    exact readRecord_formed read
  have smallest := smallestPages_iff consistent took.bounded some
  constructor
  · intro whole
    have texts : takenTexts file = colonTexts file := takenEq.symm.trans whole.taken
    rw [whole.stored, took.empty_iff, texts] at smallest
    constructor
    · exact (lines_iff formed).mp ⟨whole.formed, texts⟩
    · have within := took.cells_iff.mp (by rw [texts]; exact whole.stored)
      rwa [texts] at within
    · exact smallest.mp whole.region
  · intro plain
    obtain ⟨colons, texts⟩ := (lines_iff formed).mpr plain.lines
    have texts : takenTexts file = colonTexts file := texts
    have stored : image.cells = fileCells file := by
      have cells := took.cells_iff.mpr (by rw [texts]; exact plain.within)
      rwa [texts] at cells
    rw [stored, took.empty_iff, texts] at smallest
    constructor
    · exact colons
    · exact takenEq.trans texts
    · exact stored
    · rw [← stored]
      exact consistent.data
    · rw [← stored]
      exact consistent.ucb
    · intro slot
      rw [consistent.present, took.present_iff, stored]
    · exact smallest.mpr plain.empty

/-- Three records as a tool writes them, cut in the middle of one. -/
def cutRecords : List (List Byte) :=
  [recordLine 0 4 [0xA0, 0x00] ++ [colon], (recordLine 0x20 0 [1, 2] ++ recordLine 0 1 []).tail]

theorem accepted_takes_whole_iff_records :
    TakesWhole cutRecords.flatten (upload true cutRecords).toImage := by
  apply (accepted_takes_whole_iff cutRecords ⟨by decide +kernel, by decide +kernel⟩).mpr
  constructor
  · decide +kernel
  · decide +kernel
  · have full : ∀ record ∈ placed 0 (colonTexts cutRecords.flatten),
        record.2.kind = 0 → record.2.count ≠ 0 := by decide +kernel
    intro record member data empty
    exact absurd empty (full record member data)

/-- Two data records in one line. -/
def joinedRecords : List (List Byte) :=
  [recordLine 0 4 [0xA0, 0x00], (recordLine 0 0 [1]).dropLast ++ recordLine 1 0 [2]]

/-- The first of them is dropped, and the upload is accepted. -/
theorem accepted_drops_record :
    ¬((upload true joinedRecords).toImage.Accepted →
      TakesWhole joinedRecords.flatten (upload true joinedRecords).toImage) := by
  intro taken
  have whole := taken ⟨by decide +kernel, by decide +kernel⟩
  have colons : ∃ text ∈ colonTexts joinedRecords.flatten, colon ∈ text := by decide +kernel
  obtain ⟨text, member, second⟩ := colons
  exact (whole.formed text member).no_colon second

end Upload
end TriCoreDap
