import Mathlib.Tactic.Common

/-!
# Recursive locks

A task that holds the lock may take it again, and another one gets it only when
it was given back as often as it was taken.
-/

namespace TriCoreDap

variable {τ : Type*}

/-- The holder and how often it took the lock beyond the first time. -/
structure RecLock (τ : Type*) where
  holder : Option (τ × Nat)
  deriving DecidableEq

namespace RecLock

def free : RecLock τ := ⟨none⟩

variable [DecidableEq τ]

/-- How often the task holds the lock. -/
def depth (lock : RecLock τ) (task : τ) : Nat :=
  match lock.holder with
  | some (holder, more) => if holder = task then more + 1 else 0
  | none => 0

/-- Nobody else holds the lock. -/
def openTo (lock : RecLock τ) (task : τ) : Bool :=
  match lock.holder with
  | some (holder, _) => decide (holder = task)
  | none => true

def take (lock : RecLock τ) (task : τ) : RecLock τ :=
  match lock.holder with
  | some (holder, more) => if holder = task then ⟨some (task, more + 1)⟩ else lock
  | none => ⟨some (task, 0)⟩

/-- Giving back what one does not hold does nothing. -/
def give (lock : RecLock τ) (task : τ) : RecLock τ :=
  match lock.holder with
  | some (holder, 0) => if holder = task then ⟨none⟩ else lock
  | some (holder, more + 1) => if holder = task then ⟨some (task, more)⟩ else lock
  | none => lock

variable {lock : RecLock τ} {task other : τ}

@[simp] theorem depth_free (task : τ) : (free : RecLock τ).depth task = 0 := rfl

theorem eq_of_depth_pos (one : 0 < lock.depth task) (two : 0 < lock.depth other) :
    task = other := by
  obtain ⟨_ | ⟨holder, more⟩⟩ := lock
  · cases one
  · have first : holder = task := by
      by_contra different
      simp [depth, different] at one
    have second : holder = other := by
      by_contra different
      simp [depth, different] at two
    rw [← first, second]

theorem eq_of_openTo (opened : lock.openTo task = true) (held : 0 < lock.depth other) :
    other = task := by
  obtain ⟨_ | ⟨holder, more⟩⟩ := lock
  · cases held
  · have same : holder = task := of_decide_eq_true opened
    by_contra different
    simp [depth, same, Ne.symm different] at held

theorem depth_take (opened : lock.openTo task = true) :
    (lock.take task).depth task = lock.depth task + 1 := by
  obtain ⟨_ | ⟨holder, more⟩⟩ := lock
  · simp [take, depth]
  · have same : holder = task := of_decide_eq_true opened
    simp [take, depth, same]

theorem depth_take_other (opened : lock.openTo task = true) (different : other ≠ task) :
    (lock.take task).depth other = lock.depth other := by
  obtain ⟨_ | ⟨holder, more⟩⟩ := lock
  · simp [take, depth, different.symm]
  · have same : holder = task := of_decide_eq_true opened
    simp [take, depth, same, different.symm]

theorem depth_give (lock : RecLock τ) (task : τ) :
    (lock.give task).depth task = lock.depth task - 1 := by
  obtain ⟨_ | ⟨holder, _ | more⟩⟩ := lock
  · rfl
  all_goals
    by_cases same : holder = task
    · simp [give, depth, same]
    · simp [give, depth, same]

theorem depth_give_other (lock : RecLock τ) (different : other ≠ task) :
    (lock.give task).depth other = lock.depth other := by
  obtain ⟨_ | ⟨holder, _ | more⟩⟩ := lock
  · rfl
  all_goals
    by_cases same : holder = task
    · simp [give, depth, same, different.symm]
    · simp [give, same]

end RecLock

end TriCoreDap
