import TriCoreDap.Upload.Whole

/-!
# Which uploads are accepted

What the parser accepts, in terms of the pieces of what came in.
-/

namespace TriCoreDap
namespace Upload

open Flash Ucb HexImage

/-- The parser refuses none of the pieces. -/
def Takable : (upper : Nat) → List Piece → Prop
  | _, [] => True
  | _, .overlong :: _ => False
  | upper, .text text :: rest =>
      match readRecord text with
      | .error _ => False
      | .ok record => record.refused upper = false ∧ Takable (record.nextUpper upper) rest

/-- The bytes of a store in the program flash. -/
def Store.flashBytes : Store → Nat
  | data _ bytes => bytes.length
  | ucb _ _ => 0
  | present _ => 0

/-- What the pieces store. -/
def piecesStores : (upper : Nat) → List Piece → List Store
  | _, [] => []
  | _, .overlong :: _ => []
  | upper, .text text :: rest =>
      match readRecord text with
      | .error _ => []
      | .ok record =>
          record.stores upper ++
            if record.refused upper then [] else piecesStores (record.nextUpper upper) rest

/-- The parser refuses none of the pieces, and they store bytes in the program
flash, counted in `uint32_t`. -/
def Acceptable (pieces : List Piece) : Prop :=
  Takable 0 pieces ∧ u32 ((piecesStores 0 pieces).map Store.flashBytes).sum ≠ 0

variable {image : Image}

theorem Image.takePieces_good_iff (good : image.bad = false) (pieces : List Piece) :
    (pieces.foldl Image.takePiece image).bad = false ↔ Takable image.upper pieces := by
  induction pieces generalizing image with
  | nil => exact iff_of_true good True.intro
  | cons piece rest inductionHypothesis =>
      rw [List.foldl_cons]
      cases piece with
      | overlong =>
          have refused : (image.takePiece .overlong).bad = true := by
            simp [Image.takePiece, good, Image.fail]
          rw [Image.takePiece_bad refused, refused]
          simp [Takable]
      | text text =>
          rw [Image.takePiece_text good]
          cases read : readRecord text with
          | error why =>
              have refused : (image.parseRecord text).bad = true := by
                rw [Image.parseRecord_error good read]
              rw [Image.takePiece_bad refused, refused]
              simp [Takable, read]
          | ok record =>
              obtain ⟨bad, upper, -, -⟩ := Image.parseRecord_ok good read
              simp only [Takable, read]
              cases refused : record.refused image.upper with
              | true =>
                  rw [Image.takePiece_bad (bad.trans refused), bad.trans refused]
                  simp
              | false =>
                  rw [inductionHypothesis (bad.trans refused), upper refused]
                  simp

theorem Image.takePieces_stores (good : image.bad = false) (pieces : List Piece) :
    (pieces.foldl Image.takePiece image).stores =
      image.stores ++ piecesStores image.upper pieces := by
  induction pieces generalizing image with
  | nil => exact (List.append_nil _).symm
  | cons piece rest inductionHypothesis =>
      rw [List.foldl_cons]
      cases piece with
      | overlong =>
          have refused : (image.takePiece .overlong).bad = true := by
            simp [Image.takePiece, good, Image.fail]
          rw [Image.takePiece_bad refused]
          simp [Image.takePiece, good, Image.fail, piecesStores]
      | text text =>
          rw [Image.takePiece_text good]
          cases read : readRecord text with
          | error why =>
              have refused : (image.parseRecord text).bad = true := by
                rw [Image.parseRecord_error good read]
              rw [Image.takePiece_bad refused, Image.parseRecord_error good read]
              simp [piecesStores, read]
          | ok record =>
              obtain ⟨bad, upper, stores, -⟩ := Image.parseRecord_ok good read
              simp only [piecesStores, read]
              cases refused : record.refused image.upper with
              | true =>
                  rw [Image.takePiece_bad (bad.trans refused), stores]
                  simp
              | false =>
                  rw [inductionHypothesis (bad.trans refused), upper refused, stores]
                  simp

/-! ## The count of bytes -/

/-- The bytes of the program flash are counted. -/
def Image.Counted (image : Image) : Prop :=
  image.bytes = u32 (image.stores.map Store.flashBytes).sum

theorem Image.Counted.storeUcb
    (counted : image.Counted)
    (address : Nat)
    (payload : List Byte) : (image.storeUcb address payload).Counted := by
  have marks (slots : List Nat) : ((slots.map Store.present).map Store.flashBytes).sum = 0 := by
    rw [List.map_map]
    apply List.sum_eq_zero
    intro length member
    obtain ⟨slot, -, rfl⟩ := List.mem_map.mp member
    rfl
  unfold Image.Counted at counted ⊢
  simp only [Image.storeUcb, List.map_append, List.map_cons, List.sum_append, List.sum_cons,
    marks, Store.flashBytes, counted, Nat.add_zero]

theorem Image.Counted.kept : Image.KeptByStores Image.Counted where
  same _ _ same counted := by
    rw [Image.Counted, same.bytes, same.stores]
    exact counted
  ucb _ _ _ counted := counted.storeUcb _ _
  data image address payload _ _ counted := by
    unfold Image.Counted at counted ⊢
    simp [Image.storeData, counted, Store.flashBytes]

/-- Which images can be programmed, of uploads that came in whole or were broken
off. -/
theorem accepted_iff (whole : Bool) (chunks : List (List Byte)) :
    (upload whole chunks).toImage.Accepted ↔ Acceptable (pieces whole [] chunks.flatten) := by
  have start : Image.reset.Counted := rfl
  have counted := Image.Counted.kept.foldl start (pieces whole [] chunks.flatten)
  have good : Image.reset.bad = false := rfl
  have stores := Image.takePieces_stores good (pieces whole [] chunks.flatten)
  rw [Image.Counted, stores] at counted
  rw [Image.Accepted, upload_pieces, Image.takePieces_good_iff good, counted]
  exact Iff.rfl

end Upload
end TriCoreDap
