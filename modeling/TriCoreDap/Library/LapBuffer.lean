import Mathlib.Tactic.Common
import Mathlib.Data.Nat.ModEq
import Mathlib.Logic.Function.Basic

/-!
# Circular buffers overtaken by their writer

A writer produces the items `source 0, source 1, ...` and stores item `n` in
cell `n % size`.  Nothing stops it, so a reader finds an item only until the
writer comes round again.  This file says which item a cell holds, and how far
the writer is ahead of a reader that only knows both positions modulo the
buffer.
-/

namespace TriCoreDap
namespace LapBuffer

/-- The newest of the items `0 .. written - 1` stored in `cell`. -/
def latest (size written cell : Nat) : Option Nat :=
  if cell < written then
    some (written - 1 - (written - 1 - cell) % size)
  else none

/-- What `cell` holds after `written` items, over its initial contents. -/
def read
    (source initial : Nat → α)
    (size written cell : Nat) : α :=
  match latest size written cell with
  | some item => source item
  | none => initial cell

/-- Less than a lap behind the writer, a cell still holds its item. -/
theorem latest_of_within_lap
    (started : item < written)
    (withinLap : written ≤ item + size) :
    latest size written (item % size) = some item := by
  have cell_le : item % size ≤ item := Nat.mod_le item size
  have cell_lt : item % size < written := by omega
  have behind : (written - 1 - item % size) % size = written - 1 - item := by
    have split : written - 1 - item % size =
        (written - 1 - item) + size * (item / size) := by
      have := Nat.div_add_mod item size
      omega
    rw [split, Nat.add_mul_mod_self_left]
    exact Nat.mod_eq_of_lt (by omega)
  simp only [latest, cell_lt, if_true, behind, Option.some.injEq]
  omega

theorem read_of_within_lap
    (source initial : Nat → α)
    (started : item < written)
    (withinLap : written ≤ item + size) :
    read source initial size written (item % size) = source item := by
  simp [read, latest_of_within_lap started withinLap]

/-- How far `ahead` is past `behind`, both known modulo `size`. -/
def distance (size ahead behind : Nat) : Nat :=
  (ahead + size - behind) % size

/-- Within one lap the positions modulo the buffer give the exact distance. -/
theorem distance_mod
    (behind_le : behind ≤ ahead)
    (withinLap : ahead < behind + size) :
    distance size (ahead % size) (behind % size) = ahead - behind := by
  have positive : 0 < size := by omega
  have behind_lt : behind % size < size := Nat.mod_lt behind positive
  have modEq : ahead % size + size - behind % size ≡ ahead - behind [MOD size] := by
    have shifted : (ahead % size + size - behind % size) + behind % size ≡
        (ahead - behind) + behind % size [MOD size] := by
      have left : (ahead % size + size - behind % size) + behind % size =
          ahead % size + size := by omega
      rw [left]
      calc ahead % size + size
          ≡ ahead % size [MOD size] := by simp [Nat.ModEq]
        _ ≡ ahead [MOD size] := Nat.mod_modEq ahead size
        _ ≡ (ahead - behind) + behind [MOD size] := by
            rw [Nat.sub_add_cancel behind_le]
        _ ≡ (ahead - behind) + behind % size [MOD size] :=
            (Nat.mod_modEq behind size).symm.add_left _
    exact Nat.ModEq.add_right_cancel' _ shifted
  unfold distance
  rw [modEq, Nat.mod_eq_of_lt (by omega)]

/-- The position after the next one, reduced modulo the buffer. -/
theorem succ_mod_mod (position size : Nat) :
    (position % size + 1) % size = (position + 1) % size := by
  simp

/-- The distance without a reduction: the branch of the positions in order, or the
one of the buffer's end between them. -/
theorem distance_mod_if
    {ahead behind size : Nat}
    (behind_le : behind ≤ ahead)
    (withinLap : ahead < behind + size) :
    (if ahead % size ≥ behind % size then ahead % size - behind % size
      else size - behind % size + ahead % size) = ahead - behind := by
  have positive : 0 < size := by omega
  have distance := distance_mod behind_le withinLap
  have ahead_lt : ahead % size < size := Nat.mod_lt ahead positive
  have behind_lt : behind % size < size := Nat.mod_lt behind positive
  unfold LapBuffer.distance at distance
  split_ifs with order
  · have wraps : (ahead % size + size - behind % size) % size = ahead % size - behind % size := by
      rw [Nat.sub_add_comm order, Nat.add_mod_right]
      exact Nat.mod_eq_of_lt (by omega)
    rw [← wraps, distance]
  · have stays : (ahead % size + size - behind % size) % size =
        ahead % size + size - behind % size := Nat.mod_eq_of_lt (by omega)
    rw [← distance, stays]
    omega

variable {size written : Nat} {source cells : Nat → α}

/-- The cells hold the last items that were written. -/
def Holds (size written : Nat) (source cells : Nat → α) : Prop :=
  ∀ item < written, written ≤ item + size → cells (item % size) = source item

theorem Holds.write (holds : Holds size written source cells) :
    Holds size (written + 1) source (Function.update cells (written % size) (source written)) := by
  intro item before within
  by_cases newest : item = written
  · rw [newest, Function.update_self]
  · have different : item % size ≠ written % size := by
      intro same
      have distance := distance_mod (Nat.le_of_lt_succ before) (show written < item + size by omega)
      unfold LapBuffer.distance at distance
      rw [same, Nat.add_sub_cancel_left, Nat.mod_self] at distance
      omega
    rw [Function.update_of_ne different]
    exact holds item (by omega) (by omega)

/-- Only the items so far matter. -/
theorem Holds.congr
    (holds : Holds size written source cells)
    {source' : Nat → α}
    (same : ∀ item < written, source' item = source item) :
    Holds size written source' cells := by
  intro item before within
  rw [same item before]
  exact holds item before within

/-- `len` cells from `start` on, those past the end of the buffer from its beginning
on. -/
def wrapped (size start len : Nat) : List Nat :=
  let first := if len < size - start then len else size - start
  List.range' start first ++ List.range' 0 (len - first)

theorem length_wrapped (size start len : Nat) : (wrapped size start len).length = len := by
  simp only [wrapped, List.length_append, List.length_range']
  split <;> omega

theorem wrapped_mod
    {position len : Nat}
    (positive : 0 < size)
    (fits : len ≤ size) :
    wrapped size (position % size) len = (List.range' position len).map (· % size) := by
  have start_lt : position % size < size := Nat.mod_lt position positive
  apply List.ext_getElem
  · rw [length_wrapped, List.length_map, List.length_range']
  · intro index left right
    simp only [List.length_map, List.length_range'] at right
    rw [List.getElem_map, List.getElem_range', Nat.one_mul]
    have before (straight : position % size + index < size) :
        (position + index) % size = position % size + index := by
      rw [← Nat.mod_add_mod, Nat.mod_eq_of_lt straight]
    have after (past : size ≤ position % size + index) :
        (position + index) % size = position % size + index - size := by
      rw [← Nat.mod_add_mod, Nat.mod_eq_sub_mod past, Nat.mod_eq_of_lt (by omega)]
    simp only [wrapped, List.getElem_append, List.length_range', List.getElem_range', Nat.one_mul,
      Nat.zero_add]
    split_ifs with first here
    · rw [before (by omega)]
    · rw [before (by omega)]
    · rw [after (by omega)]
      omega

end LapBuffer
end TriCoreDap
