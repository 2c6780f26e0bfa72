import TriCoreDap.Library.Memory
import TriCoreDap.Upload.Bounds

/-!
# What the image holds

The buffers, the slots and the limits of an image follow from what was stored.
-/

namespace TriCoreDap
namespace Upload

open Flash Ucb

/-- A byte of one of the two buffers. -/
inductive Cell
  | data (index : Nat)
  | ucb (index : Nat)
  deriving DecidableEq, Repr

/-- The bytes that are written. -/
def Store.cells : Store → List (Cell × Byte)
  | data index bytes => writesFrom .data index bytes
  | ucb index bytes => writesFrom .ucb index bytes
  | present _ => []

def Image.cells (image : Image) : List (Cell × Byte) := image.stores.flatMap Store.cells

/-- The image holds what was stored, and nothing else. -/
structure Image.Consistent (image : Image) : Prop where
  data : ∀ index, image.data index = (lastWrite image.cells (.data index)).getD flashErased
  ucb : ∀ index, image.ucb index = (lastWrite image.cells (.ucb index)).getD 0
  present : ∀ slot, image.ucbPresent.testBit slot = true ↔ .present slot ∈ image.stores
  lowest : ∀ index bytes, .data index bytes ∈ image.stores → image.lowest ≤ pflashBase + index
  lowest_stored : image.lowest = 0xFFFFFFFF ∨
    ∃ index bytes, .data index bytes ∈ image.stores ∧ image.lowest = pflashBase + index
  highest : ∀ index bytes, .data index bytes ∈ image.stores →
    pflashBase + index + bytes.length ≤ image.highest
  highest_stored : image.highest = 0 ∨
    ∃ index bytes, .data index bytes ∈ image.stores ∧
      image.highest = pflashBase + index + bytes.length
  bytes : image.bytes ≠ 0 → ∃ index bytes, .data index bytes ∈ image.stores ∧ bytes ≠ []

variable {image image' : Image} {record : HexRecord} {upper : Nat}

theorem copyInto_lastWrite
    (cell : Nat → Cell)
    (distinct : Function.Injective cell)
    (buffer : Nat → Byte)
    (index : Nat)
    (bytes : List Byte)
    (position : Nat) :
    copyInto buffer index bytes position =
      (lastWrite (writesFrom cell index bytes) (cell position)).getD (buffer position) := by
  induction bytes generalizing buffer index with
  | nil => rfl
  | cons byte rest inductionHypothesis =>
      rw [copyInto, inductionHypothesis, writesFrom, lastWrite_cons]
      by_cases here : index = position
      · subst here
        cases lastWrite (writesFrom cell (index + 1) rest) (cell index) <;> simp
      · have other : cell index ≠ cell position := fun same => here (distinct same)
        rw [if_neg other, Function.update_of_ne (Ne.symm here), Option.or_none]

theorem data_injective : Function.Injective Cell.data := fun _ _ same => Cell.data.inj same

theorem ucb_injective : Function.Injective Cell.ucb := fun _ _ same => Cell.ucb.inj same

/-- An empty image. -/
theorem Image.reset_consistent : Image.reset.Consistent where
  data _ := rfl
  ucb _ := rfl
  present slot := by simp [Image.reset]
  lowest _ _ member := absurd member List.not_mem_nil
  lowest_stored := Or.inl rfl
  highest _ _ member := absurd member List.not_mem_nil
  highest_stored := Or.inl rfl
  bytes none := absurd rfl none

/-- The images hold the same. -/
structure Image.SameContents (image image' : Image) : Prop where
  data : image'.data = image.data
  ucb : image'.ucb = image.ucb
  present : image'.ucbPresent = image.ucbPresent
  lowest : image'.lowest = image.lowest
  highest : image'.highest = image.highest
  bytes : image'.bytes = image.bytes
  stores : image'.stores = image.stores

/-- What is not the contents makes no difference. -/
theorem Image.Consistent.of_same
    (consistent : image.Consistent)
    (same : image.SameContents image') : image'.Consistent := by
  have cells : image'.cells = image.cells := by rw [Image.cells, same.stores, Image.cells]
  constructor
  · rw [same.data, cells]
    exact consistent.data
  · rw [same.ucb, cells]
    exact consistent.ucb
  · rw [same.present, same.stores]
    exact consistent.present
  · rw [same.lowest, same.stores]
    exact consistent.lowest
  · rw [same.lowest, same.stores]
    exact consistent.lowest_stored
  · rw [same.highest, same.stores]
    exact consistent.highest
  · rw [same.highest, same.stores]
    exact consistent.highest_stored
  · rw [same.bytes, same.stores]
    exact consistent.bytes

/-- A property of the contents that the two kinds of store keep. -/
structure Image.KeptByStores (property : Image → Prop) : Prop where
  same : ∀ image image', image.SameContents image' → property image → property image'
  ucb : ∀ image address payload, property image → property (image.storeUcb address payload)
  data : ∀ image address payload, pflashBase ≤ address → address + payload.length < 2 ^ 32 →
    property image → property (image.storeData address payload)

theorem foldl_present (slots : List Nat) (present slot : Nat) :
    (slots.foldl (fun present slot => present ||| 1 <<< slot) present).testBit slot = true ↔
      present.testBit slot = true ∨ slot ∈ slots := by
  induction slots generalizing present with
  | nil => simp
  | cons first rest inductionHypothesis =>
      rw [List.foldl_cons, inductionHypothesis, Nat.testBit_or, Nat.one_shiftLeft,
        Nat.testBit_two_pow, Bool.or_eq_true, decide_eq_true_eq, List.mem_cons, or_assoc,
        @eq_comm _ first]

theorem Image.Consistent.storeUcb
    (consistent : image.Consistent)
    (address : Nat)
    (payload : List Byte) : (image.storeUcb address payload).Consistent := by
  have cells : (image.storeUcb address payload).cells =
      image.cells ++ writesFrom .ucb (address - ucbBase) payload := by
    have marks (slots : List Nat) : (slots.map Store.present).flatMap Store.cells = [] := by
      rw [List.flatMap_map]
      exact List.flatMap_eq_nil_iff.mpr fun _ _ => rfl
    simp [Image.cells, Image.storeUcb, marks, Store.cells]
  have kept (index : Nat) (bytes : List Byte) :
      .data index bytes ∈ (image.storeUcb address payload).stores ↔
        .data index bytes ∈ image.stores := by
    simp [Image.storeUcb]
  constructor
  · intro index
    have other : lastWrite (writesFrom Cell.ucb (address - ucbBase) payload) (Cell.data index) = none := by
      apply lastWrite_none
      intro write member
      obtain ⟨offset, -, here⟩ := mem_writesFrom member
      simp [here]
    rw [cells, lastWrite_append, other]
    exact consistent.data index
  · intro index
    rw [cells, lastWrite_append]
    have copied := copyInto_lastWrite .ucb ucb_injective image.ucb (address - ucbBase) payload index
    simp only [Image.storeUcb, copied, consistent.ucb]
    cases lastWrite (writesFrom Cell.ucb (address - ucbBase) payload) (Cell.ucb index) <;> rfl
  · intro slot
    simp [Image.storeUcb, foldl_present, consistent.present]
  · intro index bytes member
    exact consistent.lowest index bytes ((kept index bytes).mp member)
  · simpa [kept, Image.storeUcb] using consistent.lowest_stored
  · intro index bytes member
    exact consistent.highest index bytes ((kept index bytes).mp member)
  · simpa [kept, Image.storeUcb] using consistent.highest_stored
  · simpa [kept, Image.storeUcb] using consistent.bytes

theorem Image.Consistent.storeData
    (consistent : image.Consistent)
    {address : Nat}
    {payload : List Byte}
    (above : pflashBase ≤ address)
    (below : address + payload.length < 2 ^ 32) : (image.storeData address payload).Consistent := by
  have cells : (image.storeData address payload).cells =
      image.cells ++ writesFrom .data (address - pflashBase) payload := by
    simp [Image.cells, Image.storeData, Store.cells]
  have index_eq : pflashBase + (address - pflashBase) = address := by omega
  have stored (index : Nat) (bytes : List Byte) :
      .data index bytes ∈ (image.storeData address payload).stores ↔
        .data index bytes ∈ image.stores ∨ index = address - pflashBase ∧ bytes = payload := by
    simp [Image.storeData]
  have own : .data (address - pflashBase) payload ∈ (image.storeData address payload).stores := by
    simp [Image.storeData]
  have lowest : (image.storeData address payload).lowest = min image.lowest address := rfl
  have highest : (image.storeData address payload).highest =
      max image.highest (address + payload.length) := by
    simp [Image.storeData, u32_of_lt below]
  constructor
  · intro index
    rw [cells, lastWrite_append]
    have copied :=
      copyInto_lastWrite .data data_injective image.data (address - pflashBase) payload index
    simp only [Image.storeData, copied, consistent.data]
    cases lastWrite (writesFrom Cell.data (address - pflashBase) payload) (Cell.data index) <;> rfl
  · intro index
    have other : lastWrite (writesFrom Cell.data (address - pflashBase) payload) (Cell.ucb index) = none := by
      apply lastWrite_none
      intro write member
      obtain ⟨offset, -, here⟩ := mem_writesFrom member
      simp [here]
    rw [cells, lastWrite_append, other]
    exact consistent.ucb index
  · intro slot
    simpa [Image.storeData] using consistent.present slot
  · intro index bytes member
    rw [lowest]
    rcases (stored index bytes).mp member with before | same
    · exact Nat.le_trans (Nat.min_le_left _ _) (consistent.lowest index bytes before)
    · rw [same.1, index_eq]
      exact Nat.min_le_right _ _
  · rw [lowest]
    rcases Nat.le_total image.lowest address with before | here
    · rw [Nat.min_eq_left before]
      apply consistent.lowest_stored.imp_right
      rintro ⟨index, bytes, member, same⟩
      exact ⟨index, bytes, (stored index bytes).mpr (Or.inl member), same⟩
    · rw [Nat.min_eq_right here]
      exact Or.inr ⟨_, _, own, index_eq.symm⟩
  · intro index bytes member
    rw [highest]
    rcases (stored index bytes).mp member with before | same
    · exact Nat.le_trans (consistent.highest index bytes before) (Nat.le_max_left _ _)
    · rw [same.1, same.2, index_eq]
      exact Nat.le_max_right _ _
  · rw [highest]
    rcases Nat.le_total (address + payload.length) image.highest with before | here
    · rw [Nat.max_eq_left before]
      apply consistent.highest_stored.imp_right
      rintro ⟨index, bytes, member, same⟩
      exact ⟨index, bytes, (stored index bytes).mpr (Or.inl member), same⟩
    · rw [Nat.max_eq_right here]
      exact Or.inr ⟨_, _, own, by rw [index_eq]⟩
  · intro some
    by_cases empty : payload = []
    · have same : (image.storeData address payload).bytes = u32 image.bytes := by
        simp [Image.storeData, empty]
      have before : image.bytes ≠ 0 := by
        intro none
        rw [same, none] at some
        exact some rfl
      obtain ⟨index, bytes, member, full⟩ := consistent.bytes before
      exact ⟨index, bytes, (stored index bytes).mpr (Or.inl member), full⟩
    · exact ⟨_, _, own, empty⟩

/-! ## Runs -/

section Kept

variable {property : Image → Prop} (kept : Image.KeptByStores property)

include kept

theorem Image.KeptByStores.fail (holds : property image) (why : String) :
    property (image.fail why) := by
  unfold Image.fail
  split_ifs
  · exact holds
  · exact kept.same image _ ⟨rfl, rfl, rfl, rfl, rfl, rfl, rfl⟩ holds

theorem Image.KeptByStores.dataRecord (holds : property image) (record : HexRecord) :
    property (image.dataRecord record) := by
  simp only [Image.dataRecord]
  split_ifs with ucb outside past
  · exact kept.ucb _ _ _ holds
  · exact kept.same image _ ⟨rfl, rfl, rfl, rfl, rfl, rfl, rfl⟩ holds
  · exact kept.fail holds _
  · have low : record.address image.upper + record.count < 2 ^ 32 := by
      by_contra high
      exact ucb (HexRecord.inUcb_of_high (Nat.le_of_not_lt high))
    have above : pflashBase ≤ record.address image.upper := by
      by_contra below
      exact outside (Or.inl (Nat.lt_of_not_le below))
    exact kept.data _ _ _ above low holds

theorem Image.KeptByStores.takePiece (holds : property image) (piece : Piece) :
    property (image.takePiece piece) := by
  unfold Image.takePiece
  split_ifs
  · exact holds
  cases piece with
  | overlong => exact kept.fail holds _
  | text text =>
      have noted : property { image with taken := image.taken ++ [text] } :=
        kept.same image _ ⟨rfl, rfl, rfl, rfl, rfl, rfl, rfl⟩ holds
      simp only [Image.parseRecord]
      cases readRecord text with
      | error why => exact kept.fail noted why
      | ok record =>
          have counted : property { image with
              records := u32 (image.records + 1)
              taken := image.taken ++ [text] } :=
            kept.same image _ ⟨rfl, rfl, rfl, rfl, rfl, rfl, rfl⟩ holds
          have extended (upper : Nat) : property { image with
              records := u32 (image.records + 1)
              taken := image.taken ++ [text]
              upper := upper } :=
            kept.same image _ ⟨rfl, rfl, rfl, rfl, rfl, rfl, rfl⟩ holds
          unfold Image.takeRecord
          dsimp only
          split
          · exact kept.dataRecord counted record
          · split_ifs
            · exact kept.fail counted _
            · exact extended _
          · split_ifs
            · exact kept.fail counted _
            · exact extended _
          · exact counted
          · exact counted
          · exact counted
          · exact kept.fail counted _

/-- The pieces of an upload keep the property. -/
theorem Image.KeptByStores.foldl (holds : property image) (pieces : List Piece) :
    property (pieces.foldl Image.takePiece image) := by
  induction pieces generalizing image with
  | nil => exact holds
  | cons piece rest inductionHypothesis => exact inductionHypothesis (kept.takePiece holds piece)

end Kept

theorem Image.Consistent.kept : Image.KeptByStores Image.Consistent where
  same _ _ same consistent := consistent.of_same same
  ucb _ _ _ consistent := consistent.storeUcb _ _
  data _ _ _ above below consistent := consistent.storeData above below

/-- The image of an upload holds what was stored, and nothing else. -/
theorem upload_consistent (whole : Bool) (chunks : List (List Byte)) :
    (upload whole chunks).toImage.Consistent := by
  rw [upload_pieces]
  exact Image.Consistent.kept.foldl Image.reset_consistent _

end Upload
end TriCoreDap
