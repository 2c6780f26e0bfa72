import TriCoreDap.Debug.Triggers

/-!
# What the triggers are used for

The contents of the slots, and the registers and the table that stand for them.
-/

namespace TriCoreDap
namespace Debug

/-! ## Requests and slots -/

namespace Wanted

def addr : Wanted → Nat
  | code addr => addr
  | data addr _ _ _ => addr

/-- The request takes an even/odd pair. -/
def ranged : Wanted → Bool
  | code _ => false
  | data _ size _ _ => size > 1

/-- The upper bound of a range. -/
def stop : Wanted → Nat
  | code addr => addr
  | data addr size _ _ => u32 (addr + size)

/-- The accesses that the request is about. -/
def watches : Wanted → Access → Bool
  | code _, .fetch => true
  | code _, .read => false
  | code _, .write => false
  | data _ _ _ _, .fetch => false
  | data _ _ onRead _, .read => onRead
  | data _ _ _ onWrite, .write => onWrite

/-- The addresses that the request is about. -/
def Covers : Wanted → (address : Nat) → Prop
  | code addr, address => address = addr
  | data addr size _ _, address => addr ≤ address ∧ address < addr + size

def Fires (wanted : Wanted) (access : Access) (address : Nat) : Prop :=
  wanted.watches access = true ∧ wanted.Covers address

/-- The event register of the request. -/
def word : Wanted → Nat
  | code _ => trevtHaltOnAddr
  | data _ size onRead onWrite => Triggers.dataTriggerWord onRead onWrite (size > 1)

/-- The slot of the request. -/
def entry : Wanted → Bp
  | code addr => ⟨addr, 0, .user, false, false⟩
  | data addr size onRead onWrite => ⟨addr, size, .watch, onRead, onWrite⟩

/-- The odd slot of the request. -/
def upper (wanted : Wanted) : Bp := ⟨wanted.stop, 0, .watchHi, false, false⟩

/-- A watchpoint has bytes, and a range ends below the top of the address space. -/
def Valid : Wanted → Prop
  | code _ => True
  | data addr size _ _ => 1 ≤ size ∧ (1 < size → addr + size < 2 ^ 32)

end Wanted

/-- What a slot is used for. -/
inductive Content
  | free
  | holds (wanted : Wanted)
  | upper (wanted : Wanted)
  deriving DecidableEq, Repr

namespace Content

def entry : Content → Bp
  | free => .free
  | holds wanted => wanted.entry
  | upper wanted => wanted.upper

/-- The registers stand for the content. -/
def Programmed : Content → (evt adr : Nat) → Prop
  | free, evt, _ => evt = 0
  | holds wanted, evt, adr => evt = wanted.word ∧ adr = wanted.addr
  | upper wanted, evt, adr => evt = 0 ∧ adr = wanted.stop

end Content

/-- The table and the registers stand for the contents, and these for the live
requests. -/
structure Tabled (debugger : Debugger) (contents : Nat → Content) : Prop where
  entry : ∀ slot < numTriggers, debugger.table slot = (contents slot).entry
  programmed : ∀ slot < numTriggers,
    (contents slot).Programmed (debugger.triggers.evt slot) (debugger.triggers.adr slot)
  pair : ∀ slot < numTriggers, ∀ wanted, contents slot = .upper wanted ↔
    slot % 2 = 1 ∧ contents (slot - 1) = .holds wanted ∧ wanted.ranged = true
  even : ∀ slot < numTriggers, ∀ wanted, contents slot = .holds wanted →
    wanted.ranged = true → slot % 2 = 0
  valid : ∀ slot < numTriggers, ∀ wanted, contents slot = .holds wanted → wanted.Valid
  live : ∀ wanted, wanted ∈ debugger.live ↔ ∃ slot < numTriggers, contents slot = .holds wanted
  unique : ∀ slot < numTriggers, ∀ other < numTriggers, ∀ wanted,
    contents slot = .holds wanted → contents other = .holds wanted → slot = other

variable {debugger : Debugger} {contents : Nat → Content} {wanted : Wanted} {slot : Nat}

/-! ## Firing -/

theorem Wanted.word_ranged (wanted : Wanted) : wanted.word.testBit 13 = wanted.ranged := by
  cases wanted with
  | code addr =>
      have clear : trevtHaltOnAddr.testBit 13 = false := by decide
      exact clear
  | data addr size onRead onWrite =>
      simp only [word, ranged]
      generalize decide (size > 1) = isRange
      revert onRead onWrite isRange
      decide

theorem Armed.zero (access : Access) : ¬Armed 0 access := by
  cases access <;> simp [Armed, evtaHalt]

theorem dataTriggerWord_armed (onRead onWrite isRange : Bool) :
    ¬Armed (Triggers.dataTriggerWord onRead onWrite isRange) .fetch ∧
      (Armed (Triggers.dataTriggerWord onRead onWrite isRange) .read ↔ onRead = true) ∧
        (Armed (Triggers.dataTriggerWord onRead onWrite isRange) .write ↔ onWrite = true) := by
  revert onRead onWrite isRange
  decide

/-- The event register fires on what the request is about. -/
theorem Wanted.armed_iff (wanted : Wanted) (access : Access) :
    Armed wanted.word access ↔ wanted.watches access = true := by
  cases wanted with
  | code addr =>
      have armed : ∀ access, Armed trevtHaltOnAddr access ↔ access = .fetch := by
        intro access
        cases access <;> decide
      rw [word, armed]
      cases access <;> simp [watches]
  | data addr size onRead onWrite =>
      obtain ⟨fetch, read, write⟩ := dataTriggerWord_armed onRead onWrite (size > 1)
      cases access with
      | fetch => simpa [watches, word] using fetch
      | read => exact read
      | write => exact write

theorem Tabled.ranged_iff (tabled : Tabled debugger contents) (inside : slot < numTriggers) :
    debugger.triggers.ranged slot = true ↔
      ∃ wanted, contents slot = .holds wanted ∧ wanted.ranged = true := by
  have programmed := tabled.programmed slot inside
  unfold Triggers.ranged
  cases content : contents slot with
  | free =>
      rw [content] at programmed
      rw [programmed]
      simp
  | upper wanted =>
      rw [content] at programmed
      rw [programmed.1]
      simp
  | holds wanted =>
      rw [content] at programmed
      rw [programmed.1, wanted.word_ranged]
      simp

/-- A slot in use for a request fires on what the request is about. -/
theorem Tabled.slot_fires
    (tabled : Tabled debugger contents)
    (inside : slot < numTriggers)
    (holds : contents slot = .holds wanted)
    (access : Access)
    (address : Nat) :
    Armed (debugger.triggers.evt slot) access ∧ debugger.triggers.Covers slot address ↔
      wanted.Fires access address := by
  obtain ⟨evt, adr⟩ : debugger.triggers.evt slot = wanted.word ∧
      debugger.triggers.adr slot = wanted.addr := by
    have programmed := tabled.programmed slot inside
    rwa [holds] at programmed
  have valid := tabled.valid slot inside wanted holds
  have isRanged : debugger.triggers.ranged slot = wanted.ranged := by
    rw [Triggers.ranged, evt, wanted.word_ranged]
  have covers : debugger.triggers.Covers slot address ↔
      if wanted.ranged then wanted.addr ≤ address ∧ address < wanted.stop
      else address = wanted.addr := by
    rw [Triggers.Covers, isRanged, adr]
    cases ranged : wanted.ranged with
    | false => exact Iff.rfl
    | true =>
        have even := tabled.even slot inside wanted holds ranged
        unfold numTriggers at inside
        have odd : slot + 1 < numTriggers := by
          unfold numTriggers
          omega
        have pair := (tabled.pair (slot + 1) odd wanted).mpr ⟨by omega, holds, ranged⟩
        have programmed := tabled.programmed (slot + 1) odd
        rw [pair] at programmed
        rw [programmed.2]
  rw [evt, wanted.armed_iff, covers]
  cases wanted with
  | code addr =>
      simp [Wanted.ranged, Wanted.addr, Wanted.Fires, Wanted.Covers]
  | data addr size onRead onWrite =>
      obtain ⟨some, below⟩ := valid
      by_cases wide : 1 < size
      · have stop : u32 (addr + size) = addr + size := u32_of_lt (below wide)
        simp [Wanted.ranged, Wanted.addr, Wanted.stop, Wanted.Fires, Wanted.Covers, wide, stop]
      · have one : size = 1 := by omega
        have here : address = addr ↔ addr ≤ address ∧ address < addr + 1 := by omega
        simp [Wanted.ranged, Wanted.addr, Wanted.Fires, Wanted.Covers, one, here]

/-- The triggers fire on what the live requests are about, and on nothing else. -/
theorem Tabled.fires_iff
    (tabled : Tabled debugger contents)
    (access : Access)
    (address : Nat) :
    debugger.triggers.Fires access address ↔
      ∃ wanted ∈ debugger.live, wanted.Fires access address := by
  constructor
  · rintro ⟨slot, inside, -, armed, covers⟩
    have programmed := tabled.programmed slot inside
    cases content : contents slot with
    | free =>
        rw [content] at programmed
        rw [programmed] at armed
        exact absurd armed (Armed.zero access)
    | upper wanted =>
        rw [content] at programmed
        rw [programmed.1] at armed
        exact absurd armed (Armed.zero access)
    | holds wanted =>
        refine ⟨wanted, (tabled.live wanted).mpr ⟨slot, inside, content⟩, ?_⟩
        exact (tabled.slot_fires inside content access address).mp ⟨armed, covers⟩
  · rintro ⟨wanted, live, fires⟩
    obtain ⟨slot, inside, holds⟩ := (tabled.live wanted).mp live
    obtain ⟨armed, covers⟩ := (tabled.slot_fires inside holds access address).mpr fires
    refine ⟨slot, inside, ?_, armed, covers⟩
    rintro ⟨odd, ranged⟩
    have inside' : slot - 1 < numTriggers := by omega
    obtain ⟨other, otherHolds, otherRanged⟩ := (tabled.ranged_iff inside').mp ranged
    have upper := (tabled.pair slot inside other).mpr ⟨odd, otherHolds, otherRanged⟩
    rw [holds] at upper
    cases upper

/-! ## Slots of the table -/

theorem Wanted.entry_injective {other : Wanted} (same : wanted.entry = other.entry) :
    wanted = other := by
  cases wanted <;> cases other <;> simp_all [entry]

theorem Wanted.entry_kind (wanted : Wanted) :
    wanted.entry.kind = .user ∨ wanted.entry.kind = .watch := by
  cases wanted <;> simp [entry]

theorem Wanted.entry_addr (wanted : Wanted) : wanted.entry.addr = wanted.addr := by
  cases wanted <;> rfl

theorem Content.entry_free {content : Content} : content.entry.kind = .free ↔ content = .free := by
  cases content with
  | free => simp [entry, Bp.free]
  | upper wanted => simp [entry, Wanted.upper]
  | holds wanted =>
      rcases wanted.entry_kind with user | watch
      · simp [entry, user]
      · simp [entry, watch]

theorem Content.eq_holds {content : Content} (same : content.entry = wanted.entry) :
    content = .holds wanted := by
  have kind := wanted.entry_kind
  cases content with
  | free =>
      rw [← same] at kind
      simp [entry, Bp.free] at kind
  | upper other =>
      rw [← same] at kind
      simp [entry, Wanted.upper] at kind
  | holds other => rw [Wanted.entry_injective same]

/-- The odd slot of a pair is reserved as long as its even slot holds the range. -/
theorem Tabled.reserved_iff
    (tabled : Tabled debugger contents)
    (inside : slot + 1 < numTriggers)
    (even : slot % 2 = 0) :
    (debugger.table (slot + 1)).kind = .watchHi ↔
      (debugger.table slot).kind = .watch ∧ (debugger.table slot).size > 1 := by
  have inside' : slot < numTriggers := by omega
  rw [tabled.entry _ inside, tabled.entry _ inside']
  have pair := tabled.pair (slot + 1) inside
  rw [Nat.add_sub_cancel] at pair
  constructor
  · intro upper
    cases content : contents (slot + 1) with
    | free =>
        rw [content] at upper
        cases upper
    | holds wanted =>
        rw [content] at upper
        rcases wanted.entry_kind with kind | kind
        · cases kind.symm.trans upper
        · cases kind.symm.trans upper
    | upper wanted =>
        obtain ⟨-, holds, ranged⟩ := (pair wanted).mp content
        rw [holds]
        cases wanted with
        | code addr => cases ranged
        | data addr size onRead onWrite => exact ⟨rfl, of_decide_eq_true ranged⟩
  · rintro ⟨watch, wide⟩
    cases content : contents slot with
    | free =>
        rw [content] at watch
        cases watch
    | upper wanted =>
        rw [content] at watch
        cases watch
    | holds wanted =>
        rw [content] at watch wide
        cases wanted with
        | code addr => cases watch
        | data addr size onRead onWrite =>
            have ranged : (Wanted.data addr size onRead onWrite).ranged = true :=
              decide_eq_true wide
            have upper := (pair _).mpr ⟨by omega, content, ranged⟩
            rw [upper]
            rfl

end Debug
end TriCoreDap
