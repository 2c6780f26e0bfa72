import TriCoreDap.Upload.Lines
import TriCoreDap.Upload.Contents

/-!
# What a file says

The bytes of the data records of a file, each where it lands, and which records
are stored as they are.
-/

namespace TriCoreDap
namespace Upload

open Flash Ucb HexImage

/-- The texts that follow the colons of a file, each up to the end of its line. -/
def colonTexts (file : List Byte) : List (List Byte) := (fileLines [] file).flatMap lineColons

/-- The records of the texts, each with the upper part of its addresses. -/
def placed : (upper : Nat) → List (List Byte) → List (Nat × HexRecord)
  | _, [] => []
  | upper, text :: rest =>
      match readRecord text with
      | .ok record => (upper, record) :: placed (record.nextUpper upper) rest
      | .error _ => placed upper rest

/-- Where the byte at an address lands. -/
def landing (address : Nat) : Option Cell :=
  let place := physical (u32 address)
  if ucbBase ≤ place ∧ place < ucbBase + ucbWindow then some (.ucb (place - ucbBase))
  else if pflashBase ≤ place ∧ place < pflashEnd then some (.data (place - pflashBase))
  else none

/-- The bytes from an address on that land in a buffer. -/
def landed : (address : Nat) → List Byte → List (Cell × Byte)
  | _, [] => []
  | address, byte :: rest =>
      ((landing address).map (·, byte)).toList ++ landed (address + 1) rest

/-- The bytes of a data record. -/
def HexRecord.cells (upper : Nat) (record : HexRecord) : List (Cell × Byte) :=
  if record.kind = 0 then landed (u32 (upper + record.offset)) record.payload else []

/-- The bytes of the data records of a file, in order. -/
def fileCells (file : List Byte) : List (Cell × Byte) :=
  (placed 0 (colonTexts file)).flatMap fun record => record.2.cells record.1

/-- The borders of what is mapped to a buffer. -/
def borders : List Nat :=
  [pflashCached, pflashCached + 0x800000, pflashBase, pflashEnd, ucbBase, ucbBase + ucbWindow]

/-- A data record with bytes on both sides of a border, or up to the top of the
address space. -/
def HexRecord.Crosses (upper : Nat) (record : HexRecord) : Prop :=
  2 ^ 32 ≤ u32 (upper + record.offset) + record.count ∨
    ∃ border ∈ borders, u32 (upper + record.offset) < border ∧
      border < u32 (upper + record.offset) + record.count

instance (upper : Nat) (record : HexRecord) : Decidable (record.Crosses upper) :=
  inferInstanceAs (Decidable (_ ∨ _))

variable {upper : Nat} {record : HexRecord} {address : Nat} {bytes : List Byte}

/-! ## Landing -/

theorem landed_none (none : ∀ offset < bytes.length, landing (address + offset) = .none) :
    landed address bytes = [] := by
  induction bytes generalizing address with
  | nil => rfl
  | cons byte rest inductionHypothesis =>
      have here := none 0 (Nat.succ_pos _)
      rw [Nat.add_zero] at here
      have later : landed (address + 1) rest = [] := by
        apply inductionHypothesis
        intro offset inside
        have next := none (offset + 1) (Nat.succ_lt_succ inside)
        rwa [← Nat.add_assoc, Nat.add_right_comm] at next
      rw [landed, here, later]
      rfl

theorem landed_writesFrom
    {cell : Nat → Cell}
    {index : Nat}
    (lands : ∀ offset < bytes.length, landing (address + offset) = some (cell (index + offset))) :
    landed address bytes = writesFrom cell index bytes := by
  induction bytes generalizing address index with
  | nil => rfl
  | cons byte rest inductionHypothesis =>
      have here := lands 0 (Nat.succ_pos _)
      rw [Nat.add_zero, Nat.add_zero] at here
      have later : landed (address + 1) rest = writesFrom cell (index + 1) rest := by
        apply inductionHypothesis
        intro offset inside
        have next := lands (offset + 1) (Nat.succ_lt_succ inside)
        rwa [← Nat.add_assoc, ← Nat.add_assoc, Nat.add_right_comm,
          Nat.add_right_comm index] at next
      rw [landed, here, later]
      rfl

theorem landed_some
    (offset : Nat)
    (inside : offset < bytes.length)
    (lands : landing (address + offset) ≠ none) : landed address bytes ≠ [] := by
  induction bytes generalizing address offset with
  | nil => cases inside
  | cons byte rest inductionHypothesis =>
      rw [landed]
      cases offset with
      | zero =>
          rw [Nat.add_zero] at lands
          obtain ⟨cell, here⟩ := Option.ne_none_iff_exists'.mp lands
          simp [here]
      | succ offset =>
          have later : landed (address + 1) rest ≠ [] := by
            apply inductionHypothesis offset (Nat.lt_of_succ_lt_succ inside)
            rwa [Nat.add_assoc, Nat.add_comm 1]
          simp [later]

/-- A cell of one of the two buffers. -/
def Cell.InBounds : Cell → Prop
  | data index => index < pflashEnd - pflashBase
  | ucb index => index < ucbWindow

theorem landing_inBounds (lands : landing address = some cell) : cell.InBounds := by
  simp only [landing] at lands
  split_ifs at lands with ucb data
  · obtain rfl := Option.some.inj lands
    unfold Cell.InBounds
    omega
  · obtain rfl := Option.some.inj lands
    unfold Cell.InBounds
    omega

theorem landed_inBounds (member : write ∈ landed address bytes) : write.1.InBounds := by
  induction bytes generalizing address with
  | nil => cases member
  | cons byte rest inductionHypothesis =>
      rcases List.mem_append.mp member with here | later
      · cases lands : landing address with
        | none => simp [lands] at here
        | some cell =>
            rw [lands] at here
            rw [List.mem_singleton.mp here]
            exact landing_inBounds lands
      · exact inductionHypothesis later

/-! ## Windows -/

theorem physical_cached (cached : pflashCached ≤ address ∧ address < pflashCached + 0x800000) :
    physical address = address - pflashCached + pflashBase := by
  rw [physical, if_pos cached]

theorem physical_other (other : ¬(pflashCached ≤ address ∧ address < pflashCached + 0x800000)) :
    physical address = address := by
  rw [physical, if_neg other]

theorem landing_cached (cached : pflashCached ≤ address ∧ address < pflashCached + 0x800000) :
    landing address = some (.data (address - pflashCached)) := by
  have low : address < 2 ^ 32 := by
    unfold pflashCached at cached
    omega
  simp only [landing, u32_of_lt low, physical_cached cached]
  rw [if_neg, if_pos, Nat.add_sub_cancel]
  · unfold pflashCached pflashBase pflashEnd at *
    omega
  · unfold pflashCached pflashBase ucbBase at *
    omega

theorem landing_flash (flash : pflashBase ≤ address ∧ address < pflashEnd) :
    landing address = some (.data (address - pflashBase)) := by
  have low : address < 2 ^ 32 := by
    unfold pflashEnd at flash
    omega
  have other : ¬(pflashCached ≤ address ∧ address < pflashCached + 0x800000) := by
    unfold pflashBase at flash
    unfold pflashCached
    omega
  simp only [landing, u32_of_lt low, physical_other other]
  rw [if_neg, if_pos flash]
  unfold pflashEnd ucbBase at *
  omega

theorem landing_ucb (ucb : ucbBase ≤ address ∧ address < ucbBase + ucbWindow) :
    landing address = some (.ucb (address - ucbBase)) := by
  have low : address < 2 ^ 32 := by
    unfold ucbBase ucbWindow at ucb
    omega
  have other : ¬(pflashCached ≤ address ∧ address < pflashCached + 0x800000) := by
    unfold ucbBase at ucb
    unfold pflashCached
    omega
  simp only [landing, u32_of_lt low, physical_other other]
  rw [if_pos ucb]

theorem landing_none
    (low : address < 2 ^ 32)
    (cached : ¬(pflashCached ≤ address ∧ address < pflashCached + 0x800000))
    (flash : ¬(pflashBase ≤ address ∧ address < pflashEnd))
    (ucb : ¬(ucbBase ≤ address ∧ address < ucbBase + ucbWindow)) : landing address = none := by
  simp only [landing, u32_of_lt low, physical_other cached]
  rw [if_neg ucb, if_neg flash]

/-! ## Records -/

/-- The cells of what a record stores. -/
def HexRecord.stored (upper : Nat) (record : HexRecord) : List (Cell × Byte) :=
  (record.stores upper).flatMap Store.cells

theorem HexRecord.stored_ucb
    (data : record.kind = 0)
    (ucb : record.InUcb upper) :
    record.stored upper = writesFrom .ucb (record.address upper - ucbBase) record.payload := by
  have accepted : record.refused upper = false := by simp [HexRecord.refused, data, ucb]
  have marks : ((record.slots upper).map Store.present).flatMap Store.cells = [] := by
    rw [List.flatMap_map]
    exact List.flatMap_eq_nil_iff.mpr fun _ _ => rfl
  simp [HexRecord.stored, HexRecord.stores, data, accepted, ucb, marks, Store.cells]

theorem HexRecord.stored_outside
    (ucb : ¬record.InUcb upper)
    (outside : record.Outside upper) : record.stored upper = [] := by
  simp [HexRecord.stored, HexRecord.stores, ucb, outside]

theorem HexRecord.stored_data
    (data : record.kind = 0)
    (accepted : record.refused upper = false)
    (ucb : ¬record.InUcb upper)
    (outside : ¬record.Outside upper) :
    record.stored upper = writesFrom .data (record.address upper - pflashBase) record.payload := by
  simp [HexRecord.stored, HexRecord.stores, data, accepted, ucb, outside, Store.cells]

theorem HexRecord.first_lt (upper : Nat) (record : HexRecord) :
    u32 (upper + record.offset) < 2 ^ 32 := Nat.mod_lt _ (by decide)

/-- The borders, one by one. -/
theorem HexRecord.crosses_iff (upper : Nat) (record : HexRecord) :
    record.Crosses upper ↔
      let first := u32 (upper + record.offset)
      let stop := first + record.count
      2 ^ 32 ≤ stop ∨ (first < 0x80000000 ∧ 0x80000000 < stop) ∨
        (first < 0x80800000 ∧ 0x80800000 < stop) ∨ (first < 0xA0000000 ∧ 0xA0000000 < stop) ∨
          (first < 0xA0800000 ∧ 0xA0800000 < stop) ∨ (first < 0xAF400000 ∧ 0xAF400000 < stop) ∨
            (first < 0xAF406000 ∧ 0xAF406000 < stop) := by
  simp [HexRecord.Crosses, borders, pflashCached, pflashBase, pflashEnd, ucbBase, ucbWindow]

/-- A record that crosses no border is stored as it is. -/
theorem HexRecord.stored_eq
    (accepted : record.refused upper = false)
    (within : record.kind = 0 → ¬record.Crosses upper) :
    record.stored upper = record.cells upper := by
  by_cases data : record.kind = 0
  · have whole := (HexRecord.crosses_iff upper record).not.mp (within data)
    have length : record.payload.length = record.count := rfl
    have address : record.address upper = physical (u32 (upper + record.offset)) := rfl
    have stop : record.stop upper = u32 (record.address upper + record.count) := rfl
    rw [HexRecord.cells, if_pos data]
    generalize u32 (upper + record.offset) = first at *
    by_cases empty : record.count = 0
    · have none : record.payload = [] := List.eq_nil_of_length_eq_zero empty
      by_cases ucb : record.InUcb upper
      · rw [HexRecord.stored_ucb data ucb, none]
        rfl
      · by_cases outside : record.Outside upper
        · rw [HexRecord.stored_outside ucb outside, none]
          rfl
        · rw [HexRecord.stored_data data accepted ucb outside, none]
          rfl
    · by_cases cached : pflashCached ≤ first ∧ first < pflashCached + 0x800000
      · rw [physical_cached cached] at address
        unfold pflashCached at cached
        unfold pflashCached pflashBase at address
        have end_eq : record.stop upper = record.address upper + record.count := by
          rw [stop, u32_of_lt (by omega)]
        have ucb : ¬record.InUcb upper := by
          unfold HexRecord.InUcb ucbBase
          omega
        have outside : ¬record.Outside upper := by
          unfold HexRecord.Outside pflashBase pflashEnd
          omega
        rw [HexRecord.stored_data data accepted ucb outside]
        symm
        apply landed_writesFrom
        intro offset inside
        rw [landing_cached (by unfold pflashCached; omega)]
        have same : first + offset - pflashCached =
            record.address upper - pflashBase + offset := by
          unfold pflashCached pflashBase
          omega
        rw [same]
      · rw [physical_other cached] at address
        unfold pflashCached at cached
        have end_eq : record.stop upper = record.address upper + record.count := by
          rw [stop, u32_of_lt (by omega)]
        by_cases flash : pflashBase ≤ first ∧ first < pflashEnd
        · unfold pflashBase pflashEnd at flash
          have ucb : ¬record.InUcb upper := by
            unfold HexRecord.InUcb ucbBase
            omega
          have outside : ¬record.Outside upper := by
            unfold HexRecord.Outside pflashBase pflashEnd
            omega
          rw [HexRecord.stored_data data accepted ucb outside]
          symm
          apply landed_writesFrom
          intro offset inside
          rw [landing_flash (by unfold pflashBase pflashEnd; omega)]
          have same : first + offset - pflashBase =
              record.address upper - pflashBase + offset := by
            unfold pflashBase
            omega
          rw [same]
        · unfold pflashBase pflashEnd at flash
          by_cases inUcb : ucbBase ≤ first ∧ first < ucbBase + ucbWindow
          · unfold ucbBase ucbWindow at inUcb
            have ucb : record.InUcb upper := by
              unfold HexRecord.InUcb ucbBase ucbWindow
              omega
            rw [HexRecord.stored_ucb data ucb]
            symm
            apply landed_writesFrom
            intro offset inside
            rw [landing_ucb (by unfold ucbBase ucbWindow; omega)]
            have same : first + offset - ucbBase =
                record.address upper - ucbBase + offset := by
              unfold ucbBase
              omega
            rw [same]
          · unfold ucbBase ucbWindow at inUcb
            have ucb : ¬record.InUcb upper := by
              unfold HexRecord.InUcb ucbBase ucbWindow
              omega
            have outside : record.Outside upper := by
              unfold HexRecord.Outside pflashBase pflashEnd
              omega
            rw [HexRecord.stored_outside ucb outside]
            symm
            apply landed_none
            intro offset inside
            apply landing_none
            · omega
            · unfold pflashCached
              omega
            · unfold pflashBase pflashEnd
              omega
            · unfold ucbBase ucbWindow
              omega
  · simp [HexRecord.stored, HexRecord.stores, HexRecord.cells, data]

/-- A record that crosses a border below the top of the address space is left out,
with bytes that the file has. -/
theorem HexRecord.stored_crosses
    (data : record.kind = 0)
    (inside : ¬record.Wraps upper)
    (crosses : record.Crosses upper) : record.stored upper = [] ∧ record.cells upper ≠ [] := by
  have borders := (HexRecord.crosses_iff upper record).mp crosses
  have low : ¬2 ^ 32 ≤ record.address upper + record.count := fun high => inside ⟨data, high⟩
  have length : record.payload.length = record.count := rfl
  have short : record.count < 2 ^ 8 := record.payload_lt
  have address : record.address upper = physical (u32 (upper + record.offset)) := rfl
  have stop := HexRecord.stop_eq (Nat.lt_of_not_le low)
  have first_lt := HexRecord.first_lt upper record
  rw [HexRecord.cells, if_pos data]
  generalize u32 (upper + record.offset) = first at *
  by_cases cached : pflashCached ≤ first ∧ first < pflashCached + 0x800000
  · rw [physical_cached cached] at address
    have lands := landing_cached cached
    unfold pflashCached at cached
    unfold pflashCached pflashBase at address
    have ucb : ¬record.InUcb upper := by
      unfold HexRecord.InUcb ucbBase
      omega
    have outside : record.Outside upper := by
      unfold HexRecord.Outside pflashBase pflashEnd
      omega
    refine ⟨HexRecord.stored_outside ucb outside, ?_⟩
    apply landed_some 0
    · omega
    · rw [Nat.add_zero, lands]
      exact Option.some_ne_none _
  · rw [physical_other cached] at address
    unfold pflashCached at cached
    have ucb : ¬record.InUcb upper := by
      unfold HexRecord.InUcb ucbBase ucbWindow
      omega
    have outside : record.Outside upper := by
      unfold HexRecord.Outside pflashBase pflashEnd
      omega
    refine ⟨HexRecord.stored_outside ucb outside, ?_⟩
    by_cases flash : pflashBase ≤ first ∧ first < pflashEnd
    · apply landed_some 0
      · omega
      · rw [Nat.add_zero, landing_flash flash]
        exact Option.some_ne_none _
    · unfold pflashBase pflashEnd at flash
      by_cases inUcb : ucbBase ≤ first ∧ first < ucbBase + ucbWindow
      · apply landed_some 0
        · omega
        · rw [Nat.add_zero, landing_ucb inUcb]
          exact Option.some_ne_none _
      · -- the first byte lies below a window, so the window starts at the border
        unfold ucbBase ucbWindow at inUcb
        rcases Nat.lt_or_ge first 0x80000000 with below | above
        · apply landed_some (0x80000000 - first)
          · omega
          · rw [landing_cached (by unfold pflashCached; omega)]
            exact Option.some_ne_none _
        · rcases Nat.lt_or_ge first 0xA0000000 with below | above
          · apply landed_some (0xA0000000 - first)
            · omega
            · rw [landing_flash (by unfold pflashBase pflashEnd; omega)]
              exact Option.some_ne_none _
          · apply landed_some (0xAF400000 - first)
            · omega
            · rw [landing_ucb (by unfold ucbBase ucbWindow; omega)]
              exact Option.some_ne_none _

/-- A record that reaches the top is stored where no byte of a file lands. -/
theorem HexRecord.stored_wraps (wraps : record.Wraps upper) :
    ∃ write ∈ record.stored upper, ¬write.1.InBounds := by
  obtain ⟨data, high⟩ := wraps
  have short : record.count < 2 ^ 8 := record.payload_lt
  have address := HexRecord.address_lt upper record
  have length : record.payload.length = record.count := rfl
  rw [HexRecord.stored_ucb data (HexRecord.inUcb_of_high high)]
  cases payload : record.payload with
  | nil =>
      rw [payload, List.length_nil] at length
      omega
  | cons byte rest =>
      refine ⟨_, List.mem_cons_self, ?_⟩
      unfold Cell.InBounds ucbBase ucbWindow
      omega

theorem HexRecord.cells_inBounds (member : write ∈ record.cells upper) : write.1.InBounds := by
  unfold HexRecord.cells at member
  split_ifs at member
  · exact landed_inBounds member
  · cases member

end Upload
end TriCoreDap
