import TriCoreDap.Library.Sender
import TriCoreDap.Debug.Table

/-!
# Requests for breakpoints and watchpoints

A request finds its slot by the address alone.  As long as the first slot in use at
the address is the one of the same request, the triggers are those asked for.
-/

namespace TriCoreDap
namespace Debug

/-- The first slot in use at an address. -/
def Debugger.FirstAt (debugger : Debugger) (addr slot : Nat) : Prop :=
  slot < numTriggers ∧ (debugger.table slot).kind ≠ .free ∧ (debugger.table slot).addr = addr ∧
    ∀ earlier < slot,
      ¬((debugger.table earlier).kind ≠ .free ∧ (debugger.table earlier).addr = addr)

instance (debugger : Debugger) (addr slot : Nat) : Decidable (debugger.FirstAt addr slot) :=
  inferInstanceAs (Decidable (_ ∧ _ ∧ _ ∧ _))

/-- A range ends below the top of the address space. -/
def Wanted.BelowTop : Wanted → Prop
  | code _ => True
  | data addr size _ _ => 1 < size → addr + size < 2 ^ 32

/-- What comes of the writes is what the code takes it for: a write that decides over
success is not done when it fails, and the addresses of a range, which nothing looks
at, are written. -/
def Wanted.Settles (wanted : Wanted) (outcomes : Nat → WriteOutcome) : Prop :=
  if wanted.ranged = true then
    outcomes 3 ≠ .failed true ∧
      (outcomes 3 = .ok → (outcomes 0).isApplied = true ∧ (outcomes 1).isApplied = true)
  else outcomes 0 = .ok → outcomes 1 ≠ .failed true

/-- The first slot in use at the address of the request, if there is one, is that of
the same request, and the writes settle. -/
def Debugger.Fits (debugger : Debugger) (request : Request × (Nat → WriteOutcome)) : Prop :=
  match request.1 with
  | .set bw => ∀ wanted, bw.wanted = some wanted →
      (∀ slot, debugger.FirstAt wanted.addr slot → debugger.table slot = wanted.entry) ∧
        wanted.BelowTop ∧
          ((∀ slot, ¬debugger.FirstAt wanted.addr slot) → wanted.Settles request.2)
  | .clear bw => ∀ slot, debugger.FirstAt (u32 bw.addr) slot →
      (∃ wanted, bw.wanted = some wanted ∧ debugger.table slot = wanted.entry) ∧
        (request.2 0).isApplied = true

/-- No slot in use and no trigger armed. -/
structure Debugger.Empty (debugger : Debugger) : Prop where
  table : ∀ slot, debugger.table slot = .free
  evt : ∀ slot, debugger.triggers.evt slot = 0
  live : debugger.live = []

/-- The triggers are those asked for, and the odd slot of a pair is reserved as long
as its even slot holds the range. -/
structure Debugger.Sound (debugger : Debugger) : Prop where
  implements : ∀ access address, debugger.triggers.Fires access address ↔
    ∃ wanted ∈ debugger.live, wanted.Fires access address
  reserved : ∀ slot, slot + 1 < numTriggers → slot % 2 = 0 →
    ((debugger.table (slot + 1)).kind = .watchHi ↔
      (debugger.table slot).kind = .watch ∧ (debugger.table slot).size > 1)

variable {debugger debugger' : Debugger} {contents : Nat → Content} {wanted : Wanted}
  {slot addr : Nat} {triggers : Triggers} {outcomes : Nat → WriteOutcome}

theorem Debugger.Empty.tabled (empty : debugger.Empty) : Tabled debugger fun _ => .free where
  entry slot _ := empty.table slot
  programmed slot _ := empty.evt slot
  pair := by simp
  even := by simp
  valid := by simp
  live := by simp [empty.live]
  unique := by simp

theorem Tabled.sound (tabled : Tabled debugger contents) : debugger.Sound where
  implements := tabled.fires_iff
  reserved _ inside even := tabled.reserved_iff inside even

/-! ## Looking up -/

theorem Debugger.slotOfAddr_some (found : debugger.slotOfAddr addr = some slot) :
    debugger.FirstAt addr slot := by
  rw [slotOfAddr, List.find?_range_eq_some] at found
  obtain ⟨here, inside, earlier⟩ := found
  obtain ⟨used, there⟩ := of_decide_eq_true here
  refine ⟨List.mem_range.mp inside, used, there, ?_⟩
  intro other before same
  have absent := earlier other before
  simp [same] at absent

theorem Debugger.slotOfAddr_none (missing : debugger.slotOfAddr addr = none) :
    ∀ slot < numTriggers,
      ¬((debugger.table slot).kind ≠ .free ∧ (debugger.table slot).addr = addr) := by
  intro slot inside same
  rw [slotOfAddr, List.find?_range_eq_none] at missing
  have absent := missing slot inside
  simp [same] at absent

theorem Debugger.freeSlot_some (found : debugger.freeSlot = some slot) :
    slot < numTriggers ∧ (debugger.table slot).kind = .free := by
  rw [freeSlot, List.find?_range_eq_some] at found
  exact ⟨List.mem_range.mp found.2.1, of_decide_eq_true found.1⟩

theorem Debugger.freePair_some (found : debugger.freePair = some slot) :
    slot + 1 < numTriggers ∧ slot % 2 = 0 ∧ (debugger.table slot).kind = .free ∧
      (debugger.table (slot + 1)).kind = .free := by
  unfold freePair at found
  have here := List.find?_some found
  have free := of_decide_eq_true here
  obtain ⟨half, inside, same⟩ := List.mem_map.mp (List.mem_of_find?_eq_some found)
  have range := List.mem_range.mp inside
  unfold numTriggers at range ⊢
  refine ⟨by omega, by omega, free⟩

theorem Tabled.content_free
    (tabled : Tabled debugger contents)
    (inside : slot < numTriggers)
    (free : (debugger.table slot).kind = .free) : contents slot = .free := by
  rw [tabled.entry slot inside] at free
  exact Content.entry_free.mp free

theorem Tabled.content_holds
    (tabled : Tabled debugger contents)
    (inside : slot < numTriggers)
    (same : debugger.table slot = wanted.entry) : contents slot = .holds wanted := by
  rw [tabled.entry slot inside] at same
  exact Content.eq_holds same

/-- A live request has a slot in use at its address. -/
theorem Tabled.live_used (tabled : Tabled debugger contents) (live : wanted ∈ debugger.live) :
    ∃ slot < numTriggers,
      (debugger.table slot).kind ≠ .free ∧ (debugger.table slot).addr = wanted.addr := by
  obtain ⟨slot, inside, holds⟩ := (tabled.live wanted).mp live
  refine ⟨slot, inside, ?_, ?_⟩
  · rw [tabled.entry slot inside, holds, ne_eq, Content.entry_free]
    exact Content.noConfusion
  · rw [tabled.entry slot inside, holds]
    exact wanted.entry_addr

/-! ## Changes of the contents -/

/-- The slots of the request have this content. -/
def Wanted.place
    (wanted : Wanted)
    (slot : Nat)
    (here upper : α)
    (contents : Nat → α)
    (other : Nat) : α :=
  if other = slot then here
  else if wanted.ranged = true ∧ other = slot + 1 then upper
  else contents other

/-- The pairs stay pairs where both halves change together. -/
theorem Tabled.pair_place
    (tabled : Tabled debugger contents)
    (inside : slot < numTriggers)
    {here upper : Content}
    (notUpper : ∀ request, contents slot ≠ .upper request)
    (hereNotUpper : ∀ request, here ≠ .upper request)
    (even : wanted.ranged = true → slot % 2 = 0)
    (paired : wanted.ranged = true → ∀ request,
      upper = .upper request ↔ here = .holds request ∧ request.ranged = true)
    (single : wanted.ranged = false → ∀ request, request.ranged = true →
      contents slot ≠ .holds request ∧ here ≠ .holds request) :
    ∀ other < numTriggers, ∀ request,
      wanted.place slot here upper contents other = .upper request ↔
        other % 2 = 1 ∧ wanted.place slot here upper contents (other - 1) = .holds request ∧
          request.ranged = true := by
  intro other inside' request
  have before := tabled.pair other inside' request
  unfold Wanted.place
  by_cases atSlot : other = slot
  · subst atSlot
    have noPair := before.not.mp (notUpper request)
    by_cases odd : other % 2 = 1
    · have below : other - 1 ≠ other := by omega
      have notNext : other - 1 ≠ other + 1 := by omega
      simpa [below, notNext, odd, hereNotUpper request] using noPair
    · simp [odd, hereNotUpper request]
  · by_cases next : other = slot + 1
    · subst next
      rw [Nat.add_sub_cancel] at before ⊢
      cases ranged : wanted.ranged with
      | true =>
          have odd : (slot + 1) % 2 = 1 := by
            have isEven := even ranged
            omega
          simpa [odd] using paired ranged request
      | false =>
          simp only [atSlot, if_false, Bool.false_eq_true, false_and, if_true]
          have other := single ranged request
          constructor
          · intro upper
            obtain ⟨-, holds, isRanged⟩ := before.mp upper
            exact absurd holds (other isRanged).1
          · rintro ⟨-, holds, isRanged⟩
            exact absurd holds (other isRanged).2
    · have same : (if other = slot then here
          else if wanted.ranged = true ∧ other = slot + 1 then upper
          else contents other) = contents other := by simp [atSlot, next]
      rw [same, before]
      by_cases odd : other % 2 = 1
      · have notSlot : other - 1 ≠ slot := by omega
        have notNext : ¬(wanted.ranged = true ∧ other - 1 = slot + 1) := by
          rintro ⟨ranged, above⟩
          have isEven := even ranged
          omega
        rw [if_neg notSlot, if_neg notNext]
      · simp [odd]

/-- A request is put into free slots. -/
theorem Tabled.insert
    (tabled : Tabled debugger contents)
    (inside : slot < numTriggers)
    (free : contents slot = .free)
    (pair : wanted.ranged = true → slot % 2 = 0 ∧ contents (slot + 1) = .free)
    (valid : wanted.Valid)
    (absent : wanted ∉ debugger.live)
    (table : debugger'.table = wanted.place slot wanted.entry wanted.upper debugger.table)
    (evt : debugger'.triggers.evt = wanted.place slot wanted.word 0 debugger.triggers.evt)
    (adr : debugger'.triggers.adr =
      wanted.place slot wanted.addr wanted.stop debugger.triggers.adr)
    (live : debugger'.live = wanted :: debugger.live) :
    Tabled debugger' (wanted.place slot (.holds wanted) (.upper wanted) contents) := by
  have fresh (other : Nat) (inside' : other < numTriggers) : contents other ≠ .holds wanted :=
    fun holds => absent ((tabled.live wanted).mpr ⟨other, inside', holds⟩)
  constructor
  · intro other inside'
    rw [table]
    unfold Wanted.place
    split_ifs
    · rfl
    · rfl
    · exact tabled.entry other inside'
  · intro other inside'
    rw [evt, adr]
    unfold Wanted.place
    split_ifs
    · exact ⟨rfl, rfl⟩
    · exact ⟨rfl, rfl⟩
    · exact tabled.programmed other inside'
  · apply tabled.pair_place inside
    · rw [free]
      exact fun _ => Content.noConfusion
    · exact fun _ => Content.noConfusion
    · exact fun ranged => (pair ranged).1
    · intro ranged request
      constructor
      · intro upper
        obtain rfl := Content.upper.inj upper
        exact ⟨rfl, ranged⟩
      · rintro ⟨holds, -⟩
        rw [Content.holds.inj holds]
    · intro single request ranged
      constructor
      · rw [free]
        exact Content.noConfusion
      · intro holds
        obtain rfl := Content.holds.inj holds
        rw [single] at ranged
        cases ranged
  · intro other inside' request
    unfold Wanted.place
    split_ifs with here next
    · intro holds ranged
      obtain rfl := Content.holds.inj holds
      rw [here]
      exact (pair ranged).1
    · intro holds
      cases holds
    · exact tabled.even other inside' request
  · intro other inside' request
    unfold Wanted.place
    split_ifs
    · intro holds
      obtain rfl := Content.holds.inj holds
      exact valid
    · intro holds
      cases holds
    · exact tabled.valid other inside' request
  · intro request
    rw [live, List.mem_cons, tabled.live]
    constructor
    · rintro (rfl | ⟨other, inside', holds⟩)
      · exact ⟨slot, inside, by simp [Wanted.place]⟩
      · refine ⟨other, inside', ?_⟩
        unfold Wanted.place
        split_ifs with here next
        · rw [here, free] at holds
          cases holds
        · rw [next.2, (pair next.1).2] at holds
          cases holds
        · exact holds
    · rintro ⟨other, inside', holds⟩
      unfold Wanted.place at holds
      split_ifs at holds
      · exact Or.inl (Content.holds.inj holds).symm
      · exact Or.inr ⟨other, inside', holds⟩
  · intro first firstInside second secondInside request firstHolds secondHolds
    unfold Wanted.place at firstHolds secondHolds
    split_ifs at firstHolds secondHolds with firstHere secondHere secondHere
    · rw [firstHere, secondHere]
    · obtain rfl := Content.holds.inj firstHolds
      exact absurd secondHolds (fresh second secondInside)
    · obtain rfl := Content.holds.inj secondHolds
      exact absurd firstHolds (fresh first firstInside)
    · exact tabled.unique first firstInside second secondInside request firstHolds secondHolds

/-- A request is taken out of its slots. -/
theorem Tabled.remove
    (tabled : Tabled debugger contents)
    (inside : slot < numTriggers)
    (holds : contents slot = .holds wanted)
    (table : debugger'.table = wanted.place slot .free .free debugger.table)
    (evt : ∀ other < numTriggers,
      debugger'.triggers.evt other = wanted.place slot 0 0 debugger.triggers.evt other)
    (adr : ∀ other, other ≠ slot → ¬(wanted.ranged = true ∧ other = slot + 1) →
      debugger'.triggers.adr other = debugger.triggers.adr other)
    (live : ∀ request,
      request ∈ debugger'.live ↔ request ∈ debugger.live ∧ request ≠ wanted) :
    Tabled debugger' (wanted.place slot .free .free contents) := by
  have elsewhere {other : Nat} {request : Wanted}
      (left : wanted.place slot .free .free contents other = .holds request) :
      other ≠ slot ∧ contents other = .holds request := by
    unfold Wanted.place at left
    split_ifs at left with here
    exact ⟨here, left⟩
  constructor
  · intro other inside'
    rw [table]
    unfold Wanted.place
    split_ifs
    · rfl
    · rfl
    · exact tabled.entry other inside'
  · intro other inside'
    rw [evt other inside']
    unfold Wanted.place
    split_ifs with here next
    · rfl
    · rfl
    · rw [adr other here next]
      exact tabled.programmed other inside'
  · apply tabled.pair_place inside
    · rw [holds]
      exact fun _ => Content.noConfusion
    · exact fun _ => Content.noConfusion
    · exact tabled.even slot inside wanted holds
    · simp
    · intro single request ranged
      constructor
      · rw [holds]
        intro same
        obtain rfl := Content.holds.inj same
        rw [single] at ranged
        cases ranged
      · exact Content.noConfusion
  · intro other inside' request left
    exact tabled.even other inside' request (elsewhere left).2
  · intro other inside' request left
    exact tabled.valid other inside' request (elsewhere left).2
  · intro request
    rw [live, tabled.live]
    constructor
    · rintro ⟨⟨other, inside', there⟩, different⟩
      refine ⟨other, inside', ?_⟩
      unfold Wanted.place
      split_ifs with here next
      · rw [here, holds] at there
        exact absurd (Content.holds.inj there).symm different
      · -- the odd half of the pair holds no request
        have even := tabled.even slot inside wanted holds next.1
        have upper := (tabled.pair other inside' wanted).mpr
          ⟨by omega, by rw [next.2, Nat.add_sub_cancel, holds], next.1⟩
        rw [upper] at there
        cases there
      · exact there
    · rintro ⟨other, inside', left⟩
      obtain ⟨different, there⟩ := elsewhere left
      refine ⟨⟨other, inside', there⟩, ?_⟩
      rintro rfl
      exact different (tabled.unique other inside' slot inside request there holds)
  · intro first firstInside second secondInside request firstLeft secondLeft
    exact tabled.unique first firstInside second secondInside request (elsewhere firstLeft).2
      (elsewhere secondLeft).2

end Debug
end TriCoreDap
