import Mathlib.Data.Nat.Bitwise
import Mathlib.Tactic.Common

/-!
# Gray codes of counters

A counter crosses between two clocks as its Gray code.  One step of the counter
changes one bit of the code, also where the counter wraps, so a sample in which
every bit is the old or the new one is the old or the new code.
-/

namespace TriCoreDap
namespace Gray

variable {width : Nat}

/-- The Gray code of a counter. -/
def encode (b : BitVec width) : BitVec width := b ^^^ b >>> 1

theorem getLsbD_encode (b : BitVec width) (i : Nat) :
    (encode b).getLsbD i = (b.getLsbD i ^^ b.getLsbD (i + 1)) := by
  rw [encode, BitVec.getLsbD_xor, BitVec.getLsbD_ushiftRight, Nat.add_comm]

/-- The bit `i` with the value `bit`. -/
def bitAt (width i : Nat) (bit : Bool) : BitVec width :=
  if bit then BitVec.twoPow width i else BitVec.ofNat width 0

theorem getLsbD_bitAt (i j : Nat) (bit : Bool) :
    (bitAt width i bit).getLsbD j = (decide (i < width) && decide (i = j) && bit) := by
  cases bit with
  | false => rw [bitAt, if_neg Bool.false_ne_true, BitVec.getLsbD_zero, Bool.and_false]
  | true => rw [bitAt, if_pos rfl, BitVec.getLsbD_twoPow, Bool.and_true]

/-- The bits below `i` of a counter, from the one above them down. -/
def decodeFrom (g : BitVec width) : Nat → BitVec width → BitVec width
  | 0, b => b
  | i + 1, b => decodeFrom g i (b ||| bitAt width i (b.getLsbD (i + 1) ^^ g.getLsbD i))

/-- The counter of a Gray code: the top bit is the code's own. -/
def decode (g : BitVec width) : BitVec width :=
  decodeFrom g (width - 1) (bitAt width (width - 1) (g.getLsbD (width - 1)))

/-- The bits from `i` on are the counter's. -/
def Decoded (b found : BitVec width) (i : Nat) : Prop :=
  ∀ j, found.getLsbD j = (decide (i ≤ j) && b.getLsbD j)

theorem Decoded.decodeFrom {b found : BitVec width} {i : Nat} (decoded : Decoded b found i) :
    decodeFrom (encode b) i found = b := by
  induction i generalizing found with
  | zero =>
      ext j inside
      have same := decoded j
      rwa [decide_eq_true (Nat.zero_le j), Bool.true_and] at same
  | succ i inductionHypothesis =>
      apply inductionHypothesis
      intro j
      have above := decoded (i + 1)
      rw [decide_eq_true (le_refl _), Bool.true_and] at above
      rw [BitVec.getLsbD_or, decoded j, getLsbD_bitAt, getLsbD_encode, above]
      by_cases same : i = j
      · subst same
        by_cases inside : i < width
        · have below : ¬i + 1 ≤ i := Nat.not_succ_le_self i
          cases b.getLsbD i <;> cases b.getLsbD (i + 1) <;> simp [inside, below]
        · simp [inside, BitVec.getLsbD_of_ge _ _ (not_lt.mp inside)]
      · have either : i + 1 ≤ j ↔ i ≤ j := by omega
        simp [same, either]

theorem decode_encode (b : BitVec width) : decode (encode b) = b := by
  apply Decoded.decodeFrom
  intro j
  have outside : b.getLsbD (width - 1 + 1) = false := BitVec.getLsbD_of_ge _ _ (by omega)
  rw [getLsbD_bitAt, getLsbD_encode, outside, Bool.xor_false]
  by_cases inside : j < width
  · have positive : width - 1 < width := by omega
    have top : width - 1 ≤ j ↔ width - 1 = j := by omega
    rw [decide_eq_true positive, Bool.true_and, decide_eq_decide.mpr top]
    by_cases same : width - 1 = j
    · simp only [same]
    · rw [decide_eq_false same, Bool.false_and, Bool.false_and]
  · have apart : ¬(width - 1 < width ∧ width - 1 = j) := by omega
    rw [BitVec.getLsbD_of_ge b j (not_lt.mp inside), Bool.and_false, ← Bool.decide_and,
      decide_eq_false apart, Bool.false_and]

/-! ## One step -/

/-- Every bit below `i` is set: a step carries into the bit `i`. -/
def Carries (b : BitVec width) (i : Nat) : Prop := ∀ j < i, b.getLsbD j = true

instance decidableCarries (b : BitVec width) (i : Nat) : Decidable (Carries b i) :=
  inferInstanceAs (Decidable (∀ j < i, _))

theorem carries_succ (b : BitVec width) (i : Nat) :
    Carries b (i + 1) ↔ Carries b i ∧ b.getLsbD i = true :=
  Nat.forall_lt_succ_right

theorem getLsbD_next (b : BitVec width) {i : Nat} (inside : i < width) :
    (b + BitVec.ofNat width 1).getLsbD i = (b.getLsbD i ^^ decide (Carries b i)) := by
  rw [BitVec.getLsbD_add inside]
  cases i with
  | zero =>
      have carries : Carries b 0 := fun j below => absurd below (Nat.not_lt_zero j)
      rw [BitVec.carry_zero, decide_eq_true carries]
      simp [inside]
  | succ i =>
      have below : (∀ j ≤ i, b.getLsbD j = true) ↔ Carries b (i + 1) :=
        forall_congr' fun j => by rw [Nat.lt_succ_iff]
      rw [BitVec.carry_succ_one i b (Nat.zero_lt_of_lt inside)]
      simp [below]

/-- The bit that a step changes: the lowest that is clear, or else the top bit. -/
def Changes (b : BitVec width) (i : Nat) : Prop :=
  i < width ∧ Carries b i ∧ (i + 1 < width → b.getLsbD i = false)

theorem Changes.unique {b : BitVec width} {i j : Nat}
    (first : Changes b i)
    (second : Changes b j) : i = j := by
  obtain ⟨i_inside, i_carries, i_clear⟩ := first
  obtain ⟨j_inside, j_carries, j_clear⟩ := second
  rcases Nat.lt_trichotomy i j with below | same | above
  · have set := j_carries i below
    rw [i_clear (by omega)] at set
    cases set
  · exact same
  · have set := i_carries j above
    rw [j_clear (by omega)] at set
    cases set

theorem changes_of_ne {b : BitVec width} {i : Nat}
    (differ : (encode (b + BitVec.ofNat width 1)).getLsbD i ≠ (encode b).getLsbD i) : Changes b i := by
  have inside : i < width := by
    by_contra outside
    rw [BitVec.getLsbD_of_ge _ _ (not_lt.mp outside),
      BitVec.getLsbD_of_ge _ _ (not_lt.mp outside)] at differ
    exact differ rfl
  rw [getLsbD_encode, getLsbD_encode, getLsbD_next b inside] at differ
  by_cases above : i + 1 < width
  · rw [getLsbD_next b above] at differ
    by_cases carries : Carries b i
    · cases clear : b.getLsbD i with
      | false => exact ⟨inside, carries, fun _ => clear⟩
      | true => simp [carries, carries_succ, clear] at differ
    · simp [carries, carries_succ] at differ
  · refine ⟨inside, ?_, fun below => absurd below above⟩
    have top := not_lt.mp above
    rw [BitVec.getLsbD_of_ge _ _ top, BitVec.getLsbD_of_ge _ _ top] at differ
    by_contra idle
    simp [idle] at differ

/-- Every bit of the sample is the bit before or the bit after. -/
def Settles (before after seen : BitVec width) : Prop :=
  ∀ i < width, seen.getLsbD i = before.getLsbD i ∨ seen.getLsbD i = after.getLsbD i

instance decidableSettles (before after seen : BitVec width) :
    Decidable (Settles before after seen) :=
  inferInstanceAs (Decidable (∀ i < width, _))

theorem settles_self {before seen : BitVec width} (settles : Settles before before seen) :
    seen = before := by
  ext i inside
  exact (settles i inside).elim id id

/-- A sample of the code while the counter steps is the old or the new code. -/
theorem Settles.eq_or_eq {b seen : BitVec width}
    (settles : Settles (encode b) (encode (b + BitVec.ofNat width 1)) seen) :
    seen = encode b ∨ seen = encode (b + BitVec.ofNat width 1) := by
  by_cases same : seen = encode b
  · exact Or.inl same
  right
  obtain ⟨i, differs⟩ : ∃ i, seen.getLsbD i ≠ (encode b).getLsbD i := by
    by_contra none
    apply same
    ext i inside
    exact not_not.mp (not_exists.mp none i)
  have inside : i < width := by
    by_contra outside
    rw [BitVec.getLsbD_of_ge _ _ (not_lt.mp outside),
      BitVec.getLsbD_of_ge _ _ (not_lt.mp outside)] at differs
    exact differs rfl
  have new := (settles i inside).resolve_left differs
  have changes : Changes b i := changes_of_ne (new ▸ differs)
  ext j inside
  rcases settles j inside with old | new'
  · by_cases unlike : (encode (b + BitVec.ofNat width 1)).getLsbD j = (encode b).getLsbD j
    · exact old.trans unlike.symm
    · obtain rfl := changes.unique (changes_of_ne unlike)
      exact new
  · exact new'

end Gray
end TriCoreDap
