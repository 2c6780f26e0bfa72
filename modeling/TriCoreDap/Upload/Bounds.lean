import TriCoreDap.Upload.Records

/-!
# Where the parser stores

The end of a data record is compared in `uint32_t`: a record that reaches the top
of the address space is taken to lie in the UCB window.
-/

namespace TriCoreDap
namespace Upload

open Flash Ucb

/-- The store lies in its buffer, or marks a slot that there is. -/
def Store.InBounds : Store → Prop
  | data index bytes => bytes = [] ∨ index + bytes.length ≤ imageMaxBytes
  | ucb index bytes => bytes = [] ∨ index + bytes.length ≤ ucbWindow
  | present slot => slot < ucbSlots

instance (store : Store) : Decidable store.InBounds := by
  cases store <;> unfold Store.InBounds <;> infer_instance

/-- A data record that reaches the top of the address space. -/
def HexRecord.Wraps (upper : Nat) (record : HexRecord) : Prop :=
  record.kind = 0 ∧ 2 ^ 32 ≤ record.address upper + record.count

instance (upper : Nat) (record : HexRecord) : Decidable (record.Wraps upper) :=
  inferInstanceAs (Decidable (_ ∧ _))

/-- No data record up to the first that is refused reaches the top of the address
space. -/
def NeverWraps : (upper : Nat) → List Piece → Prop
  | _, [] => True
  | _, .overlong :: _ => True
  | upper, .text text :: rest =>
      match readRecord text with
      | .error _ => True
      | .ok record =>
          ¬record.Wraps upper ∧
            (record.refused upper = false → NeverWraps (record.nextUpper upper) rest)

variable {record : HexRecord} {upper : Nat} {image : Image}

theorem HexRecord.address_lt (upper : Nat) (record : HexRecord) :
    record.address upper < 2 ^ 32 := by
  have sum : u32 (upper + record.offset) < 2 ^ 32 := Nat.mod_lt _ (by decide)
  unfold HexRecord.address physical pflashCached pflashBase
  split_ifs <;> omega

/-- The end of a record that does not reach the top is what it seems. -/
theorem HexRecord.stop_eq (inside : record.address upper + record.count < 2 ^ 32) :
    record.stop upper = record.address upper + record.count :=
  u32_of_lt inside

theorem slotsOf_inBounds (inside : last < ucbWindow) :
    ∀ slot ∈ Image.slotsOf first last, slot < ucbSlots := by
  intro slot member
  obtain ⟨index, within, rfl⟩ := List.mem_map.mp member
  have range := List.mem_range.mp within
  have bound : last / ucbSize < ucbSlots := by
    unfold ucbSlots ucbSize
    unfold ucbWindow at inside ⊢
    omega
  omega

/-- What a record stores lies in the buffers unless it reaches the top. -/
theorem HexRecord.stores_inBounds (inside : ¬record.Wraps upper) :
    ∀ store ∈ record.stores upper, store.InBounds := by
  unfold HexRecord.stores
  split_ifs with idle ucb outside
  · simp
  · have data : record.kind = 0 := by
      by_contra kind
      exact idle (Or.inl kind)
    have low : record.address upper + record.count < 2 ^ 32 := by
      by_contra high
      exact inside ⟨data, Nat.le_of_not_lt high⟩
    obtain ⟨above, below⟩ := ucb
    rw [HexRecord.stop_eq low] at below
    intro store member
    rcases List.mem_cons.mp member with rfl | member
    · right
      have length : record.payload.length = record.count := rfl
      omega
    · obtain ⟨slot, within, rfl⟩ := List.mem_map.mp member
      unfold HexRecord.slots at within
      split_ifs at within with some
      · exact slotsOf_inBounds (by omega) slot within
      · cases within
  · simp
  · simp only [not_or, Bool.not_eq_true, not_not] at idle
    obtain ⟨data, accepted⟩ := idle
    have low : record.address upper + record.count < 2 ^ 32 := by
      by_contra high
      exact inside ⟨data, Nat.le_of_not_lt high⟩
    have fits : u32 (record.address upper - pflashBase + record.count) ≤ imageMaxBytes := by
      simpa [HexRecord.refused, data, ucb, outside] using accepted
    rw [u32_of_lt (by omega)] at fits
    intro store member
    rw [List.mem_singleton.mp member]
    right
    have length : record.payload.length = record.count := rfl
    omega

/-- The end of a record that reaches the top wraps to the bottom. -/
theorem HexRecord.inUcb_of_high (high : 2 ^ 32 ≤ record.address upper + record.count) :
    record.InUcb upper := by
  have short : record.count < 2 ^ 8 := record.payload_lt
  have address := HexRecord.address_lt upper record
  have stop : record.stop upper < 2 ^ 8 := by
    unfold HexRecord.stop u32
    omega
  unfold HexRecord.InUcb ucbBase ucbWindow
  omega

/-- A record that reaches the top is stored past the end of the UCB window. -/
theorem HexRecord.stores_wraps (wraps : record.Wraps upper) :
    ∃ store ∈ record.stores upper, ¬store.InBounds := by
  obtain ⟨data, high⟩ := wraps
  have short : record.count < 2 ^ 8 := record.payload_lt
  have address := HexRecord.address_lt upper record
  have ucb := HexRecord.inUcb_of_high high
  have accepted : record.refused upper = false := by simp [HexRecord.refused, data, ucb]
  refine ⟨.ucb (record.address upper - ucbBase) record.payload, ?_, ?_⟩
  · simp [HexRecord.stores, data, accepted, ucb]
  · have some : record.payload.length = record.count := rfl
    rintro (empty | inside)
    · rw [empty] at some
      simp only [List.length_nil] at some
      omega
    · unfold ucbBase ucbWindow at inside
      omega

/-- The pieces left store in bounds exactly when no record reaches the top. -/
theorem takePieces_inBounds_iff
    (good : image.bad = false)
    (before : ∀ store ∈ image.stores, store.InBounds)
    (pieces : List Piece) :
    (∀ store ∈ (pieces.foldl Image.takePiece image).stores, store.InBounds) ↔
      NeverWraps image.upper pieces := by
  induction pieces generalizing image with
  | nil => exact iff_of_true before True.intro
  | cons piece rest inductionHypothesis =>
      rw [List.foldl_cons]
      cases piece with
      | overlong =>
          have refused : (image.takePiece .overlong).bad = true := by
            simp [Image.takePiece, good, Image.fail]
          rw [Image.takePiece_bad refused]
          have same : (image.takePiece .overlong).stores = image.stores := by
            simp [Image.takePiece, good, Image.fail]
          rw [same]
          exact iff_of_true before True.intro
      | text text =>
          rw [Image.takePiece_text good]
          cases read : readRecord text with
          | error why =>
              have applied := Image.parseRecord_error good read
              have refused : (image.parseRecord text).bad = true := by rw [applied]
              rw [Image.takePiece_bad refused, applied]
              simp only [NeverWraps, read, iff_true]
              exact before
          | ok record =>
              obtain ⟨bad, upper, stores, -⟩ := Image.parseRecord_ok good read
              simp only [NeverWraps, read]
              by_cases wraps : record.Wraps image.upper
              · apply iff_of_false
                · intro inBounds
                  obtain ⟨store, member, outside⟩ := HexRecord.stores_wraps wraps
                  obtain ⟨more, grown⟩ := (image.parseRecord text).foldl_stores rest
                  apply outside
                  apply inBounds
                  rw [grown, stores]
                  exact List.mem_append_left _ (List.mem_append_right _ member)
                · exact fun never => never.1 wraps
              · have inside : ∀ store ∈ (image.parseRecord text).stores, store.InBounds := by
                  rw [stores]
                  intro store member
                  exact (List.mem_append.mp member).elim (before store)
                    (HexRecord.stores_inBounds wraps store)
                cases refused : record.refused image.upper with
                | true =>
                    rw [Image.takePiece_bad (bad.trans refused)]
                    exact iff_of_true inside ⟨wraps, fun accepted => by cases accepted⟩
                | false =>
                    rw [inductionHypothesis (bad.trans refused) inside, upper refused]
                    exact ⟨fun never => ⟨wraps, fun _ => never⟩, fun never => never.2 rfl⟩

/-- For every upload in any chunks, whole or broken off: every store lies in its
buffer exactly when no data record reaches the top of the address space. -/
theorem stores_inBounds_iff (whole : Bool) (chunks : List (List Byte)) :
    (∀ store ∈ (upload whole chunks).stores, store.InBounds) ↔
      NeverWraps 0 (pieces whole [] chunks.flatten) := by
  have applied := upload_pieces whole chunks
  have stores : (upload whole chunks).stores =
      ((pieces whole [] chunks.flatten).foldl Image.takePiece .reset).stores := by rw [← applied]
  rw [stores]
  exact takePieces_inBounds_iff rfl (fun _ member => absurd member List.not_mem_nil) _

/-- Sixteen bytes at the top of the address space: they are stored far past the
UCB window. -/
theorem stores_past_ucb_window :
    ¬∀ store ∈ (upload true
        [recordLine 0 4 [0xFF, 0xFF], recordLine 0xFFF0 0 (List.replicate 16 0)]).stores,
      store.InBounds := by
  decide +kernel

end Upload
end TriCoreDap
