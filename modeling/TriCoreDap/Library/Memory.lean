import Mathlib.Tactic.Ring

/-!
# Memories

Functions from addresses to their contents, what it means that only a range of
addresses changed, and memories as logs of writes.
-/

namespace TriCoreDap

variable {α : Type} {start size addr : Nat} {before after : Nat → α}

/-- The contents outside `[start, start + size)` are the same. -/
def SameOutside (start size : Nat) (before after : Nat → α) : Prop :=
  ∀ addr, addr < start ∨ start + size ≤ addr → after addr = before addr

/-- The range filled with one value. -/
def fill (start size : Nat) (value : α) (memory : Nat → α) (addr : Nat) : α :=
  if start ≤ addr ∧ addr < start + size then value else memory addr

theorem sameOutside_fill (start size : Nat) (value : α) (memory : Nat → α) :
    SameOutside start size memory (fill start size value memory) := by
  intro addr outside
  rw [fill, if_neg]
  omega

theorem fill_inside (value : α) (memory : Nat → α) (inside : index < size) :
    fill start size value memory (start + index) = value := by
  rw [fill, if_pos]
  omega

/-- What changed lies in the range. -/
theorem SameOutside.mem_of_ne
    (same : SameOutside start size before after)
    (changed : after addr ≠ before addr) : start ≤ addr ∧ addr < start + size := by
  have inside := mt (same addr) changed
  omega

/-- The values in the range from `start` on. -/
def overwrite (start : Nat) (values : List α) (memory : Nat → α) (addr : Nat) : α :=
  if start ≤ addr then (values[addr - start]?).getD (memory addr) else memory addr

@[simp] theorem overwrite_nil (start : Nat) (memory : Nat → α) :
    overwrite start [] memory = memory := by
  funext addr
  simp [overwrite]

theorem overwrite_add (start index : Nat) (values : List α) (memory : Nat → α) :
    overwrite start values memory (start + index) =
      (values[index]?).getD (memory (start + index)) := by
  rw [overwrite, if_pos (Nat.le_add_right start index), Nat.add_sub_cancel_left]

theorem overwrite_outside
    (values : List α)
    (memory : Nat → α)
    (outside : addr < start ∨ start + values.length ≤ addr) :
    overwrite start values memory addr = memory addr := by
  rw [overwrite]
  split_ifs with above
  · rw [List.getElem?_eq_none (by omega)]
    rfl
  · rfl

/-- One range behind the other. -/
theorem overwrite_overwrite (start : Nat) (first second : List α) (memory : Nat → α) :
    overwrite (start + first.length) second (overwrite start first memory) =
      overwrite start (first ++ second) memory := by
  funext addr
  rw [overwrite, overwrite, overwrite]
  by_cases above : start ≤ addr
  · rw [if_pos above, if_pos above]
    rcases Nat.lt_or_ge addr (start + first.length) with before | behind
    · rw [if_neg (by omega), List.getElem?_append_left (by omega)]
    · rw [if_pos behind, List.getElem?_append_right (by omega),
        List.getElem?_eq_none (by omega : first.length ≤ addr - start), Nat.sub_add_eq]
      rfl
  · rw [if_neg above, if_neg above, if_neg (by omega)]

/-- The values are read back. -/
theorem map_overwrite (start : Nat) (values : List α) (memory : Nat → α) :
    (List.range values.length).map (fun index => overwrite start values memory (start + index)) =
      values := by
  apply List.ext_getElem?
  intro index
  rw [List.getElem?_map]
  by_cases inside : index < values.length
  · rw [List.getElem?_range inside, Option.map_some, overwrite_add,
      List.getElem?_eq_getElem inside]
    rfl
  · rw [List.getElem?_eq_none (by rw [List.length_range]; omega),
      List.getElem?_eq_none (by omega)]
    rfl

/-! ## Logs of writes -/

variable {ι : Type}

/-- The writes of values one after the other from a place on. -/
def writesFrom (place : Nat → ι) : (index : Nat) → List α → List (ι × α)
  | _, [] => []
  | index, value :: rest => (place index, value) :: writesFrom place (index + 1) rest

theorem length_writesFrom (place : Nat → ι) (index : Nat) (values : List α) :
    (writesFrom place index values).length = values.length := by
  induction values generalizing index with
  | nil => rfl
  | cons value rest inductionHypothesis =>
      rw [writesFrom, List.length_cons, List.length_cons, inductionHypothesis]

theorem writesFrom_append (place : Nat → ι) (index : Nat) (first second : List α) :
    writesFrom place index (first ++ second) =
      writesFrom place index first ++ writesFrom place (index + first.length) second := by
  induction first generalizing index with
  | nil => rfl
  | cons value rest inductionHypothesis =>
      rw [List.cons_append, writesFrom, inductionHypothesis, writesFrom, List.cons_append,
        List.length_cons, Nat.add_right_comm, Nat.add_assoc]

theorem writesFrom_eq_zip (place : Nat → ι) (index : Nat) (values : List α) :
    writesFrom place index values =
      ((List.range' index values.length).map place).zip values := by
  induction values generalizing index with
  | nil => rfl
  | cons value rest inductionHypothesis =>
      rw [writesFrom, inductionHypothesis, List.length_cons, List.range'_succ, List.map_cons,
        List.zip_cons_cons]

theorem mem_writesFrom
    {place : Nat → ι}
    {write : ι × α}
    (member : write ∈ writesFrom place index values) :
    ∃ offset, offset < values.length ∧ write.1 = place (index + offset) := by
  induction values generalizing index with
  | nil => cases member
  | cons value rest inductionHypothesis =>
      rcases List.mem_cons.mp member with rfl | member
      · exact ⟨0, Nat.succ_pos _, rfl⟩
      · obtain ⟨offset, inside, here⟩ := inductionHypothesis member
        refine ⟨offset + 1, Nat.succ_lt_succ inside, ?_⟩
        rw [here, Nat.add_assoc, Nat.add_comm 1]

theorem exists_writesFrom
    {offset : Nat}
    (place : Nat → ι)
    (index : Nat)
    (values : List α)
    (inside : offset < values.length) :
    ∃ write ∈ writesFrom place index values, write.1 = place (index + offset) := by
  induction values generalizing index offset with
  | nil => cases inside
  | cons value rest inductionHypothesis =>
      cases offset with
      | zero => exact ⟨_, List.mem_cons_self, rfl⟩
      | succ offset =>
          obtain ⟨write, member, here⟩ :=
            inductionHypothesis (index + 1) (Nat.lt_of_succ_lt_succ inside)
          refine ⟨write, List.mem_cons_of_mem _ member, ?_⟩
          rw [here, Nat.add_assoc, Nat.add_comm 1]

variable [DecidableEq ι] {place : ι} {log : List (ι × α)}

/-- The last value that the log writes to a place. -/
def lastWrite (log : List (ι × α)) (place : ι) : Option α :=
  log.foldl (fun last write => if write.1 = place then some write.2 else last) none

theorem foldl_lastWrite (log : List (ι × α)) (place : ι) (last : Option α) :
    log.foldl (fun last write => if write.1 = place then some write.2 else last) last =
      (lastWrite log place).or last := by
  induction log generalizing last with
  | nil => rfl
  | cons write rest inductionHypothesis =>
      unfold lastWrite
      rw [List.foldl_cons, List.foldl_cons, inductionHypothesis, inductionHypothesis]
      by_cases here : write.1 = place
      · rw [if_pos here, if_pos here]
        cases lastWrite rest place <;> rfl
      · rw [if_neg here, if_neg here, Option.or_none]

theorem lastWrite_append (first second : List (ι × α)) (place : ι) :
    lastWrite (first ++ second) place = (lastWrite second place).or (lastWrite first place) := by
  rw [lastWrite, List.foldl_append, foldl_lastWrite]
  rfl

theorem lastWrite_cons (write : ι × α) (rest : List (ι × α)) (place : ι) :
    lastWrite (write :: rest) place =
      (lastWrite rest place).or (if write.1 = place then some write.2 else none) := by
  rw [lastWrite, List.foldl_cons, foldl_lastWrite]

/-- A log that never writes to the place. -/
theorem lastWrite_none (other : ∀ write ∈ log, write.1 ≠ place) : lastWrite log place = none := by
  induction log with
  | nil => rfl
  | cons write rest inductionHypothesis =>
      rw [List.forall_mem_cons] at other
      rw [lastWrite_cons, inductionHypothesis other.2, if_neg other.1]
      rfl

end TriCoreDap
