import TriCoreDap.Decode.Retiming

/-!
# What messages leave alone

Messages other than TSRs leave the clock and the suspicion alone and add event
rows; a paragraph is dropped for what its messages are, not for the bases they
are decoded with.
-/

namespace TriCoreDap
namespace Decode

/-- A scan later in the same paragraph, without a TSR in between. -/
structure Scan.Extends (s s' : Scan) : Prop where
  clock : s'.clock = s.clock
  suspect : s'.suspect = s.suspect
  first : s'.first = s.first
  rows : ∃ rows, s'.out = s.out ++ rows ∧ ∀ row ∈ rows, row.kind ≠ .gap

/-- The counts for which a paragraph is dropped. -/
def Scan.flaws (s : Scan) : Nat × List (Nat × Nat × Nat) :=
  (s.counts.unknown, s.counts.malformed)

variable {tickMode final : Bool} {s s' : Scan} {core tt data dbits : Nat} {comp : Bool}

/-- A message that is compressed only against a known base is looked at. -/
theorem not_refused {ok : Bool} (synced : comp = true → ok = true) :
    ¬(comp = true ∧ (!ok) = true) := by
  rintro ⟨compressed, unknown⟩
  rw [synced compressed] at unknown
  cases unknown

/-! ## Frames -/

theorem Scan.extends_of_same
    (clock : s'.clock = s.clock)
    (suspect : s'.suspect = s.suspect)
    (first : s'.first = s.first)
    (out : s'.out = s.out) : s.Extends s' :=
  ⟨clock, suspect, first, [], by rw [out, List.append_nil], by simp⟩

theorem Scan.Extends.append
    (ext : s.Extends s')
    {row : Row}
    (event : row.kind ≠ .gap) : s.Extends (s'.append row) := by
  obtain ⟨clock, suspect, first, rows, out, events⟩ := ext
  refine ⟨clock, suspect, first, rows ++ [row], ?_, ?_⟩
  · rw [Scan.append, out, List.append_assoc]
  · intro other member
    rcases List.mem_append.mp member with member | member
    · exact events other member
    · rw [List.mem_singleton.mp member]
      exact event

theorem Scan.Extends.ite
    {p : Prop} [Decidable p]
    {first second : Scan}
    (yes : s.Extends first)
    (no : s.Extends second) : s.Extends (if p then first else second) := by
  split_ifs
  · exact yes
  · exact no

theorem Scan.extends_unsynced (s : Scan) : s.Extends s.unsynced :=
  Scan.extends_of_same rfl rfl rfl rfl

theorem Scan.extends_bad (s : Scan) (core tt dbits : Nat) : s.Extends (s.bad core tt dbits) :=
  Scan.extends_of_same rfl rfl rfl rfl

theorem Scan.extends_unknown (s : Scan) : s.Extends s.unknown :=
  Scan.extends_of_same rfl rfl rfl rfl

theorem accessKind_ne_gap (p : Prop) [Decidable p] :
    (if p then Kind.write else Kind.read) ≠ Kind.gap := by
  split_ifs <;> simp

theorem dataMessage_extends (event : kind ≠ .gap) (dsize field : Nat) :
    s.Extends (dataMessage tickMode s core comp kind dsize field) := by
  apply Scan.Extends.ite s.extends_unsynced
  apply Scan.Extends.append
  · exact Scan.extends_of_same rfl rfl rfl rfl
  · exact event

theorem addressMessage_extends (sub : Nat) :
    s.Extends (addressMessage tickMode s core comp sub data) := by
  apply Scan.Extends.ite s.extends_unsynced
  apply Scan.Extends.ite
  · exact Scan.extends_of_same rfl rfl rfl rfl
  apply Scan.Extends.append
  · exact Scan.extends_of_same rfl rfl rfl rfl
  · exact accessKind_ne_gap _

theorem access_extends : s.Extends (access tickMode s core comp tt data dbits) := by
  apply Scan.Extends.ite (s.extends_bad _ _ _)
  apply Scan.Extends.ite s.extends_unsynced
  apply Scan.Extends.ite
  · exact Scan.extends_of_same rfl rfl rfl rfl
  apply Scan.Extends.append
  · exact Scan.extends_of_same rfl rfl rfl rfl
  · exact accessKind_ne_gap _

theorem dtuMessage_extends : s.Extends (dtuMessage tickMode s core comp tt data dbits) := by
  have bad := s.extends_bad core tt dbits
  apply Scan.Extends.ite (.ite bad (dataMessage_extends (by simp) _ _))
  apply Scan.Extends.ite
  · apply Scan.Extends.ite bad
    exact .ite (.ite bad (dataMessage_extends (by simp) _ _)) (addressMessage_extends _)
  · exact access_extends

theorem wtuMessage_extends : s.Extends (wtuMessage tickMode s comp tt data dbits) := by
  have watches {s' : Scan} (same : s.Extends s') {kind : Kind} (event : kind ≠ .gap)
      (wp count : Int) : s.Extends (s'.watch tickMode kind wp count) := same.append event
  have unsynced := s.extends_unsynced
  apply Scan.Extends.ite
  · apply Scan.Extends.ite unsynced
    apply watches
    · exact Scan.extends_of_same rfl rfl rfl rfl
    · simp
  apply Scan.Extends.ite
  · apply Scan.Extends.ite unsynced
    apply watches
    · exact Scan.extends_of_same rfl rfl rfl rfl
    · simp
  apply Scan.Extends.ite
  · apply Scan.Extends.ite (s.extends_bad _ _ _)
    apply Scan.Extends.ite unsynced
    apply watches
    · exact Scan.extends_of_same rfl rfl rfl rfl
    · simp
  · exact s.extends_unknown

theorem decodeMessage_extends (other : ¬(core = coreTsu ∧ tt ≤ 1)) :
    s.Extends (decodeMessage tickMode s core tt data dbits) := by
  have counted {s' : Scan} (ext : s.counted.Extends s') : s.Extends s' :=
    ⟨ext.clock, ext.suspect, ext.first, ext.rows⟩
  simp only [decodeMessage]
  split_ifs with dtu tsu
  · exact counted dtuMessage_extends
  · have later : ¬tt ≤ 1 := fun absolute => other ⟨tsu, absolute⟩
    rw [tsuMessage, if_neg later]
    apply Scan.Extends.ite
    · apply Scan.Extends.ite
      · exact Scan.extends_of_same rfl rfl rfl rfl
      · exact Scan.extends_of_same rfl rfl rfl rfl
    · exact counted (Scan.extends_unknown _)
  · exact counted wtuMessage_extends
  · exact counted (Scan.extends_unknown _)

/-! ## Flaws -/

/-- A message of a DTU whose fields do not fit. -/
def unfitDtu (tt data dbits : Nat) : Bool :=
  if tt ≤ 1 then decide (dbits < 2)
  else if tt ≤ 3 then decide (dbits < 2 ∨ data % 4 = 2 ∧ dbits < 4)
  else decide (dbits < 6)

/-- A message of the WTU that is unknown or whose fields do not fit. -/
def unfitWtu (tt dbits : Nat) : Bool :=
  if tt ≤ 3 then false else if tt ≤ 5 then decide (dbits < 4) else true

/-- A message that is malformed, or of an unknown unit or type. -/
def unfit (core tt data dbits : Nat) : Bool :=
  if core = coreDtu0 ∨ core = coreDtu1 then unfitDtu tt data dbits
  else if core = coreTsu then decide (3 < tt)
  else if core = coreWtu then unfitWtu tt dbits
  else true

/-! The flaws do not depend on the bases. -/

theorem dataMessage_flaws (kind : Kind) (dsize field : Nat) :
    (dataMessage tickMode s core comp kind dsize field).flaws = s.flaws := by
  simp only [dataMessage, apply_ite Scan.flaws]
  exact ite_self _

theorem addressMessage_flaws (sub : Nat) :
    (addressMessage tickMode s core comp sub data).flaws = s.flaws := by
  simp only [addressMessage, apply_ite Scan.flaws]
  split_ifs <;> rfl

theorem access_flaws (long : ¬dbits < 6) :
    (access tickMode s core comp tt data dbits).flaws = s.flaws := by
  simp only [access, if_neg long, apply_ite Scan.flaws]
  split_ifs <;> rfl

theorem dtuMessage_flaws :
    (dtuMessage tickMode s core comp tt data dbits).flaws =
      if unfitDtu tt data dbits then (s.bad core tt dbits).flaws else s.flaws := by
  unfold dtuMessage dtwd dtrd unfitDtu
  by_cases first : tt ≤ 1
  · simp only [if_pos first, decide_eq_true_eq]
    split_ifs
    · rfl
    · exact dataMessage_flaws _ _ _
  by_cases second : tt ≤ 3
  · simp only [if_neg first, if_pos second, decide_eq_true_eq]
    by_cases short : dbits < 2
    · rw [if_pos short, if_pos (Or.inl short)]
    by_cases read : data % 4 = 2
    · rw [if_neg short, if_pos read]
      by_cases cut : dbits < 4
      · rw [if_pos cut, if_pos (Or.inr ⟨read, cut⟩)]
      · rw [if_neg cut, if_neg (by omega)]
        exact dataMessage_flaws _ _ _
    · rw [if_neg short, if_neg read, if_neg (by omega)]
      exact addressMessage_flaws _
  · simp only [if_neg first, if_neg second, decide_eq_true_eq]
    split_ifs with short
    · rw [access, if_pos short]
    · exact access_flaws short

theorem wtuMessage_flaws (known : tt ≤ 5) :
    (wtuMessage tickMode s comp tt data dbits).flaws =
      if unfitWtu tt dbits then (s.bad coreWtu tt dbits).flaws else s.flaws := by
  unfold wtuMessage unfitWtu
  by_cases first : tt ≤ 1
  · have later : tt ≤ 3 := by omega
    simp only [if_pos first, if_pos later, wpsMessage, apply_ite Scan.flaws]
    exact ite_self _
  by_cases second : tt ≤ 3
  · simp only [if_neg first, if_pos second, wpmMessage, apply_ite Scan.flaws]
    exact ite_self _
  · simp only [if_neg first, if_neg second, if_pos known, evcMessage, apply_ite Scan.flaws,
      decide_eq_true_eq]
    congr 1
    exact ite_self _

/-- Some message was malformed or unknown. -/
def Scan.Flawed (s : Scan) : Prop := s.counts.unknown ≠ 0 ∨ s.counts.malformed ≠ []

theorem Scan.flawed_of_flaws (same : s'.flaws = s.flaws) : s'.Flawed ↔ s.Flawed := by
  obtain ⟨unknown, malformed⟩ := Prod.mk.inj same
  rw [Scan.Flawed, unknown, malformed, Scan.Flawed]

theorem Scan.flawed_bad (same : s'.flaws = (s.bad core tt dbits).flaws) : s'.Flawed := by
  obtain ⟨-, malformed⟩ := Prod.mk.inj same
  right
  rw [malformed]
  exact List.cons_ne_nil _ _

theorem Scan.flawed_unknown (s : Scan) : s.unknown.Flawed :=
  Or.inl (Nat.succ_ne_zero _)

/-- Whether a message is a flaw is a matter of the message alone. -/
theorem decodeMessage_flawed :
    (decodeMessage tickMode s core tt data dbits).Flawed ↔
      s.Flawed ∨ unfit core tt data dbits = true := by
  simp only [decodeMessage, unfit]
  split_ifs with dtu tsu wtu
  · have flaws : (dtuMessage tickMode s.counted core (decide (tt % 2 = 1)) tt data dbits).flaws = _ :=
      dtuMessage_flaws
    split_ifs at flaws with bad
    · simp [Scan.flawed_bad flaws, bad]
    · rw [Scan.flawed_of_flaws flaws]
      simp [bad, Scan.Flawed, Scan.counted]
  · have stamps : (tsrMessage s.counted (decide (tt % 2 = 1)) data).flaws = s.counted.flaws := by
      simp only [tsrMessage, apply_ite Scan.flaws]
      split_ifs <;> rfl
    have absolute : (tsaMessage s.counted (decide (tt % 2 = 1)) data).flaws = s.counted.flaws := by
      simp only [tsaMessage, apply_ite Scan.flaws]
      exact ite_self _
    unfold tsuMessage
    split_ifs with first second
    · rw [Scan.flawed_of_flaws stamps]
      simp [show ¬3 < tt by omega, Scan.Flawed, Scan.counted]
    · rw [Scan.flawed_of_flaws absolute]
      simp [show ¬3 < tt by omega, Scan.Flawed, Scan.counted]
    · simp [Scan.flawed_unknown, show 3 < tt by omega]
  · by_cases known : tt ≤ 5
    · have flaws : (wtuMessage tickMode s.counted (decide (tt % 2 = 1)) tt data dbits).flaws = _ :=
        wtuMessage_flaws known
      split_ifs at flaws with bad
      · simp [Scan.flawed_bad flaws, bad]
      · rw [Scan.flawed_of_flaws flaws]
        simp [bad, Scan.Flawed, Scan.counted]
    · rw [wtuMessage, if_neg (by omega), if_neg (by omega), if_neg known]
      simp [Scan.flawed_unknown, unfitWtu, known, show ¬tt ≤ 3 by omega]
  · simp [Scan.flawed_unknown]

end Decode
end TriCoreDap
