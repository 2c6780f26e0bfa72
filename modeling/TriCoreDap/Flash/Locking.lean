import TriCoreDap.Library.Program

/-!
# The lock of a flash session

A flash session holds the DAP lock from `tricore_flash_begin` to
`tricore_flash_end`, over any number of GDB packets, and raises the DAP clock
meanwhile.  Here the calls of one task are followed with the lock's count split
into the session's share and the levels that a call itself takes and gives back.
What the target and the fabric answer is open at every step.
-/

namespace TriCoreDap
namespace Flash
namespace Locking

def flashDapDiv : Nat := 0
def attachDapDiv : Nat := 5

/-- The fabric's PHY: whether it answers, whether it is in wide mode, and its clock
divider. -/
structure Phy where
  ready : Bool
  wide : Bool
  div : Nat
  deriving DecidableEq, Repr

/-- What `dap_phy_fpga_attach` leaves: no change where the fabric does not answer, else
the attach clock, and wide mode only where it was on. -/
def Phy.Attached (before after : Phy) : Prop :=
  (before.ready = false ∧ after = before) ∨
    (after.ready = true ∧ after.div = attachDapDiv ∧ (after.wide = true → before.wide = true))

/-- The attach clock, as far as the fabric answers. -/
def Phy.Restored (phy : Phy) : Prop := phy.ready = true → phy.div = attachDapDiv

/-- Whose level of the lock: the session's, or the call's own. -/
inductive Share
  | session
  | call
  deriving DecidableEq, Repr

inductive LockOp
  | lock (share : Share)
  | unlock (share : Share)
  /-- Reads `s_session_locked`. -/
  | sessionLocked
  | setSession (on : Bool)
  /-- `dap_phy_fpga_ready() && !dap_phy_fpga_is_wide()`. -/
  | narrow
  | setDiv (div : Nat)
  | linkUp
  /-- Traffic with the target, which may bring the link up again. -/
  | target
  /-- `restore_link` at the end of a trace. -/
  | restoreLink
  /-- Any other answer. -/
  | answer
  deriving DecidableEq, Repr

@[reducible] def Reply : LockOp → Type
  | .lock _ | .unlock _ | .setSession _ | .setDiv _ | .restoreLink => Unit
  | .sessionLocked | .narrow | .linkUp | .target | .answer => Bool

abbrev Run (α : Type) := Program LockOp Reply α

def op (op : LockOp) : Run (Reply op) := Program.perform op

/-! ## The calls -/

def flashClock (fast : Bool) : Run Unit := do
  if ← op .narrow then op (.setDiv (if fast then flashDapDiv else attachDapDiv))

def sessionUnlock : Run Unit := do
  if ← op .sessionLocked then
    op (.setSession false)
    flashClock false
    op (.unlock .session)

/-- `dap_mcds_stop`: the flush, then the last pass with the lock. -/
def mcdsStop : Run Unit := do
  if ← op .answer then
    let _ ← op .target
    op (.lock .call)
    let _ ← op .target
    op .restoreLink
    op (.unlock .call)

def stopTrace : Run Unit := do
  if ← op .answer then mcdsStop

/-- `begin_locked`; the loader is always installed anew, over `link_up`. -/
def beginLocked : Run Bool := do
  if !(← op .linkUp) then return false
  if !(← op .target) then return false
  flashClock true
  -- the layout, then the page mode
  if !(← op .target) then return false
  op .target

def tricoreFlashBegin : Run Bool := do
  if !(← op .sessionLocked) then stopTrace
  op (.lock .session)
  if ← op .sessionLocked then op (.unlock .session)
  op (.setSession true)
  let ok ← beginLocked
  if !ok then sessionUnlock
  return ok

/-- `tricore_flash_apply`: nothing of it concerns the lock. -/
def tricoreFlashApply : Run Bool := do
  if ← op .answer then op .target else return false

def tricoreFlashEnd : Run Bool := do
  let ok ← op .target
  sessionUnlock
  return ok

def writeLocked : Run Bool := do
  if !(← op .answer) then return false
  if !(← tricoreFlashBegin) then return false
  if !(← tricoreFlashApply) then return false
  -- the boot mode headers
  let ucb ← op .target
  if !(← tricoreFlashEnd) then return false
  return ucb

def tricoreFlashWrite : Run Bool := do
  stopTrace
  op (.lock .call)
  let ok ← writeLocked
  sessionUnlock
  op (.unlock .call)
  return ok

inductive Call
  | begin
  | apply
  | write
  | end
  deriving DecidableEq, Repr

def Call.run : Call → Run Bool
  | .begin => tricoreFlashBegin
  | .apply => tricoreFlashApply
  | .write => tricoreFlashWrite
  | .end => tricoreFlashEnd

/-- After these the session is over. -/
def Call.Ends : Call → (ok : Bool) → Prop
  | .begin, ok => ok = false
  | .apply, _ => False
  | .write, _ | .end, _ => True

/-! ## The lock -/

/-- How often the session and the call hold the lock, `s_session_locked`, and the
history: whether a level was given back that was not held, the PHY at each
release of the session's lock, and the session's levels at each traffic with the
target. -/
structure Held where
  session : Nat
  call : Nat
  locked : Bool
  phy : Phy
  unheld : Bool
  released : List Phy
  worked : List (Nat × Bool)

namespace Held

/-- How often the task holds the recursive lock. -/
def depth (held : Held) : Nat := held.session + held.call

def take (held : Held) : Share → Held
  | .session => { held with session := held.session + 1 }
  | .call => { held with call := held.call + 1 }

def give (held : Held) : Share → Held
  | .session =>
      { held with
        session := held.session - 1
        unheld := held.unheld || held.session == 0
        released := if held.locked then held.released else held.released ++ [held.phy] }
  | .call => { held with call := held.call - 1, unheld := held.unheld || held.call == 0 }

def withPhy (held : Held) (phy : Phy) : Held :=
  { held with phy := phy, worked := held.worked ++ [(held.session, held.locked)] }

end Held

/-- What an operation does, and what may be answered. -/
def device : Device LockOp Reply Held
  | .lock share, held, _, held' => held' = held.take share
  | .unlock share, held, _, held' => held' = held.give share
  | .sessionLocked, held, on, held' => on = held.locked ∧ held' = held
  | .setSession on, held, _, held' => held' = { held with locked := on }
  | .narrow, held, on, held' => on = (held.phy.ready && !held.phy.wide) ∧ held' = held
  | .setDiv div, held, _, held' => held' = { held with phy := { held.phy with div := div } }
  | .linkUp, held, _, held' => ∃ phy, held.phy.Attached phy ∧ held' = held.withPhy phy
  | .target, held, _, held' =>
      ∃ phy, (phy = held.phy ∨ held.phy.Attached phy) ∧ held' = held.withPhy phy
  | .restoreLink, held, _, held' =>
      ∃ phy, (phy = held.phy ∨ held.phy.Attached phy) ∧ held' = { held with phy := phy }
  | .answer, held, _, held' => held' = held

/-- The calls so far and what they returned, from a task without the lock.  Between
two calls the session's own task can bring the link up, and any other task can do
anything to the PHY where there is no session. -/
inductive After : List (Call × Bool) → Held → Prop
  | start (phy : Phy) : After [] ⟨0, 0, false, phy, false, [], []⟩
  | between :
      After calls held →
      (held.locked = true → phy = held.phy ∨ held.phy.Attached phy) →
      After calls { held with phy := phy }
  | call :
      After calls held →
      Program.Returns device call.run held ok held' →
      After (calls ++ [(call, ok)]) held'

/-! ## What every operation keeps -/

/-- No level was given back that was not held, the session holds the lock while it is
on, the clock was restored at every release of the session's lock, and whenever the
target was talked to the session held the lock once if it was on and not at all
otherwise. -/
structure Fine (held : Held) : Prop where
  balanced : held.unheld = false
  covered : held.locked = true → 0 < held.session
  restored : ∀ phy ∈ held.released, phy.Restored
  once : ∀ work ∈ held.worked, work.1 = if work.2 then 1 else 0

/-- The session's share of the lock, with the call's own levels. -/
structure Shares (call : Nat) (locked : Bool) (held : Held) : Prop where
  call_eq : held.call = call
  locked_eq : held.locked = locked
  session_eq : held.session = if locked then 1 else 0
  /-- The flash's clock is set in narrow mode alone, and wide mode does not come up in a
  session. -/
  usual : locked = true → held.phy.ready = true → held.phy.wide = true →
    held.phy.div = attachDapDiv

variable {held : Held} {call : Nat} {locked : Bool}

theorem Shares.attached
    (shares : Shares call locked held)
    {phy : Phy}
    (attached : phy = held.phy ∨ held.phy.Attached phy) :
    locked = true → phy.ready = true → phy.wide = true → phy.div = attachDapDiv := by
  intro on ready wide
  obtain rfl | ⟨-, rfl⟩ | ⟨-, div_eq, -⟩ := attached
  · exact shares.usual on ready wide
  · exact shares.usual on ready wide
  · exact div_eq

theorem Fine.withPhy (fine : Fine held) (shares : Shares call locked held) (phy : Phy) :
    Fine (held.withPhy phy) where
  balanced := fine.balanced
  covered := fine.covered
  restored := fine.restored
  once := by
    intro work member
    rcases List.mem_append.mp member with earlier | newest
    · exact fine.once work earlier
    · rw [List.mem_singleton.mp newest]
      exact shares.locked_eq ▸ shares.session_eq

theorem Shares.withPhy
    (shares : Shares call locked held)
    {phy : Phy}
    (attached : phy = held.phy ∨ held.phy.Attached phy) :
    Shares call locked (held.withPhy phy) where
  call_eq := shares.call_eq
  locked_eq := shares.locked_eq
  session_eq := shares.session_eq
  usual := shares.attached attached

/-- Traffic with the target leaves the lock alone. -/
theorem holds_target (fine : Fine held) (shares : Shares call locked held) :
    (op .target).Holds device Fine (fun _ held' => Shares call locked held') held := by
  refine ⟨fine, fun reply held' step => ?_⟩
  obtain ⟨phy, attached, rfl⟩ := step
  exact ⟨fine.withPhy shares phy, shares.withPhy attached⟩

theorem holds_answer (fine : Fine held) (shares : Shares call locked held) :
    (op .answer).Holds device Fine (fun _ held' => Shares call locked held') held := by
  refine ⟨fine, fun reply held' step => ?_⟩
  obtain rfl : held' = held := step
  exact ⟨fine, shares⟩

/-- The attach clock is set, or was never left. -/
theorem holds_flashClock_attach
    (fine : Fine held)
    (usual : held.phy.ready = true → held.phy.wide = true → held.phy.div = attachDapDiv) :
    (flashClock false).Holds device Fine
      (fun _ held' => ∃ phy : Phy, phy.Restored ∧ held' = { held with phy := phy }) held := by
  refine ⟨fine, fun narrow held₁ step => ?_⟩
  obtain ⟨narrow_eq, rfl⟩ := step
  cases narrow with
  | false =>
      refine ⟨fine, held₁.phy, fun ready => usual ready ?_, rfl⟩
      rw [ready, Bool.true_and] at narrow_eq
      rw [← Bool.not_not held₁.phy.wide, ← narrow_eq]
      rfl
  | true =>
      refine ⟨fine, fun _ held₂ step => ?_⟩
      have held₂_eq : held₂ = { held₁ with phy := { held₁.phy with div := attachDapDiv } } := step
      rw [held₂_eq]
      exact ⟨⟨fine.balanced, fine.covered, fine.restored, fine.once⟩, _, fun _ => rfl, rfl⟩

theorem holds_sessionUnlock (fine : Fine held) (shares : Shares call locked held) :
    sessionUnlock.Holds device Fine (fun _ held' => Shares call false held') held := by
  refine ⟨fine, fun on held₁ step => ?_⟩
  obtain ⟨on_eq, rfl⟩ := step
  rw [shares.locked_eq] at on_eq
  have session_eq := shares.session_eq
  cases on with
  | false => exact ⟨fine, on_eq ▸ shares⟩
  | true =>
      rw [← on_eq, if_pos rfl] at session_eq
      refine ⟨fine, fun _ held₂ step => ?_⟩
      have held₂_eq : held₂ = { held₁ with locked := false } := step
      have fine₂ : Fine held₂ := by
        rw [held₂_eq]
        exact ⟨fine.balanced, nofun, fine.restored, fine.once⟩
      have usual : held₂.phy.ready = true → held₂.phy.wide = true →
          held₂.phy.div = attachDapDiv := by
        rw [held₂_eq]
        exact shares.usual on_eq.symm
      refine (holds_flashClock_attach fine₂ usual).bind fun _ held₃ fine₃ clocked => ?_
      obtain ⟨phy, restored, rfl⟩ := clocked
      refine ⟨fine₃, fun _ held₄ step => ?_⟩
      have held₄_eq : held₄ = ({ held₂ with phy := phy } : Held).give .session := step
      have call_eq := shares.call_eq
      rw [held₄_eq, held₂_eq]
      refine ⟨⟨?_, nofun, ?_, fine.once⟩, ⟨call_eq, rfl, ?_, nofun⟩⟩
      · change (held₁.unheld || held₁.session == 0) = false
        rw [fine.balanced, session_eq]
        rfl
      · intro last member
        rcases List.mem_append.mp member with earlier | newest
        · exact fine.restored last earlier
        · rwa [List.mem_singleton.mp newest]
      · change held₁.session - 1 = 0
        rw [session_eq]

/-! ## The calls -/

/-- A level of the call's own. -/
theorem holds_lock (fine : Fine held) (shares : Shares call locked held) :
    (op (.lock .call)).Holds device Fine (fun _ held' => Shares (call + 1) locked held') held := by
  refine ⟨fine, fun _ held' step => ?_⟩
  have held'_eq : held' = held.take .call := step
  rw [held'_eq]
  exact ⟨⟨fine.balanced, fine.covered, fine.restored, fine.once⟩,
    ⟨congrArg (· + 1) shares.call_eq, shares.locked_eq, shares.session_eq, shares.usual⟩⟩

theorem holds_unlock (fine : Fine held) (shares : Shares (call + 1) locked held) :
    (op (.unlock .call)).Holds device Fine (fun _ held' => Shares call locked held') held := by
  refine ⟨fine, fun _ held' step => ?_⟩
  have held'_eq : held' = held.give .call := step
  have call_eq := shares.call_eq
  rw [held'_eq]
  refine ⟨⟨?_, fine.covered, fine.restored, fine.once⟩,
    ⟨congrArg (· - 1) shares.call_eq, shares.locked_eq, shares.session_eq, shares.usual⟩⟩
  change (held.unheld || held.call == 0) = false
  rw [fine.balanced, call_eq]
  rfl

theorem holds_restoreLink (fine : Fine held) (shares : Shares call locked held) :
    (op .restoreLink).Holds device Fine (fun _ held' => Shares call locked held') held := by
  refine ⟨fine, fun _ held' step => ?_⟩
  obtain ⟨phy, attached, rfl⟩ := step
  exact ⟨⟨fine.balanced, fine.covered, fine.restored, fine.once⟩,
    ⟨shares.call_eq, shares.locked_eq, shares.session_eq, shares.attached attached⟩⟩

theorem holds_stopTrace (fine : Fine held) (shares : Shares call locked held) :
    stopTrace.Holds device Fine (fun _ held' => Shares call locked held') held := by
  refine (holds_answer fine shares).bind fun running held₁ fine₁ shares₁ => ?_
  cases running with
  | false => exact ⟨fine₁, shares₁⟩
  | true =>
      refine (holds_answer fine₁ shares₁).bind fun taken held₂ fine₂ shares₂ => ?_
      cases taken with
      | false => exact ⟨fine₂, shares₂⟩
      | true =>
          refine (holds_target fine₂ shares₂).bind fun _ held₃ fine₃ shares₃ => ?_
          refine (holds_lock fine₃ shares₃).bind fun _ held₄ fine₄ shares₄ => ?_
          refine (holds_target fine₄ shares₄).bind fun _ held₅ fine₅ shares₅ => ?_
          refine (holds_restoreLink fine₅ shares₅).bind fun _ held₆ fine₆ shares₆ => ?_
          exact holds_unlock fine₆ shares₆

/-- The link comes up at the attach clock, so a session that has just been joined has
the usual clock. -/
theorem holds_linkUp
    (fine : Fine held)
    (call_eq : held.call = call)
    (locked_eq : held.locked = true)
    (session_eq : held.session = 1) :
    (op .linkUp).Holds device Fine (fun _ held' => Shares call true held') held := by
  refine ⟨fine, fun _ held' step => ?_⟩
  obtain ⟨phy, attached, rfl⟩ := step
  refine ⟨⟨fine.balanced, fine.covered, fine.restored, ?_⟩,
    ⟨call_eq, locked_eq, session_eq, fun _ ready wide => ?_⟩⟩
  · intro work member
    rcases List.mem_append.mp member with earlier | newest
    · exact fine.once work earlier
    · rw [List.mem_singleton.mp newest, locked_eq]
      exact session_eq
  · change phy.ready = true at ready
    change phy.div = attachDapDiv
    obtain ⟨absent, rfl⟩ | ⟨-, div_eq, -⟩ := attached
    · rw [absent] at ready
      cases ready
    · exact div_eq

/-- The fast clock is for narrow mode alone. -/
theorem holds_flashClock_flash (fine : Fine held) (shares : Shares call locked held) :
    (flashClock true).Holds device Fine (fun _ held' => Shares call locked held') held := by
  refine ⟨fine, fun narrow held₁ step => ?_⟩
  obtain ⟨narrow_eq, rfl⟩ := step
  cases narrow with
  | false => exact ⟨fine, shares⟩
  | true =>
      refine ⟨fine, fun _ held₂ step => ?_⟩
      have held₂_eq : held₂ = { held₁ with phy := { held₁.phy with div := flashDapDiv } } := step
      rw [held₂_eq]
      refine ⟨⟨fine.balanced, fine.covered, fine.restored, fine.once⟩,
        ⟨shares.call_eq, shares.locked_eq, shares.session_eq, fun _ ready wide => ?_⟩⟩
      have wide_eq : held₁.phy.wide = true := wide
      rw [wide_eq, Bool.not_true, Bool.and_false] at narrow_eq
      cases narrow_eq

theorem holds_beginLocked
    (fine : Fine held)
    (call_eq : held.call = call)
    (locked_eq : held.locked = true)
    (session_eq : held.session = 1) :
    beginLocked.Holds device Fine (fun _ held' => Shares call true held') held := by
  refine (holds_linkUp fine call_eq locked_eq session_eq).bind fun up held₁ fine₁ shares₁ => ?_
  cases up with
  | false => exact ⟨fine₁, shares₁⟩
  | true =>
      refine (holds_target fine₁ shares₁).bind fun loaded held₂ fine₂ shares₂ => ?_
      cases loaded with
      | false => exact ⟨fine₂, shares₂⟩
      | true =>
          refine (holds_flashClock_flash fine₂ shares₂).bind fun _ held₃ fine₃ shares₃ => ?_
          refine (holds_target fine₃ shares₃).bind fun layout held₄ fine₄ shares₄ => ?_
          cases layout with
          | false => exact ⟨fine₄, shares₄⟩
          | true => exact holds_target fine₄ shares₄

/-- The rest of a begin, once the session has its level and is on. -/
theorem holds_begun
    (fine : Fine held)
    (call_eq : held.call = call)
    (session_eq : held.session = 1) :
    (do
      op (.setSession true)
      let ok ← beginLocked
      if !ok then sessionUnlock
      return ok : Run Bool).Holds device Fine (fun ok held' => Shares call ok held') held := by
  refine ⟨fine, fun _ held₁ step => ?_⟩
  have held₁_eq : held₁ = { held with locked := true } := step
  have fine₁ : Fine held₁ := by
    rw [held₁_eq]
    exact ⟨fine.balanced, fun _ => session_eq ▸ Nat.one_pos, fine.restored, fine.once⟩
  have begun : beginLocked.Holds device Fine (fun _ held' => Shares call true held') held₁ := by
    apply holds_beginLocked fine₁
    · rw [held₁_eq]
      exact call_eq
    · rw [held₁_eq]
    · rw [held₁_eq]
      exact session_eq
  refine begun.bind fun ok held₂ fine₂ shares₂ => ?_
  cases ok with
  | true => exact ⟨fine₂, shares₂⟩
  | false =>
      exact (holds_sessionUnlock fine₂ shares₂).bind fun _ held₃ fine₃ shares₃ => ⟨fine₃, shares₃⟩

/-- A begin gives its new level back where the session was on, so the session holds the
lock once either way. -/
theorem holds_joined (fine : Fine held) (shares : Shares call locked held) :
    (do
      op (.lock .session)
      if ← op .sessionLocked then op (.unlock .session)
      op (.setSession true)
      let ok ← beginLocked
      if !ok then sessionUnlock
      return ok : Run Bool).Holds device Fine (fun ok held' => Shares call ok held') held := by
  refine ⟨fine, fun _ held₁ step => ?_⟩
  have held₁_eq : held₁ = held.take .session := step
  have session_eq : held₁.session = (if locked then 1 else 0) + 1 := by
    rw [held₁_eq, ← shares.session_eq]
    rfl
  have call_eq : held₁.call = call := by
    rw [held₁_eq]
    exact shares.call_eq
  have fine₁ : Fine held₁ := by
    rw [held₁_eq]
    exact ⟨fine.balanced, fun _ => Nat.succ_pos _, fine.restored, fine.once⟩
  refine ⟨fine₁, fun on held₂ step => ?_⟩
  obtain ⟨on_eq, rfl⟩ := step
  have on_eq : on = locked := by
    rw [on_eq, held₁_eq]
    exact shares.locked_eq
  cases on with
  | false =>
      rw [← on_eq] at session_eq
      exact holds_begun fine₁ call_eq session_eq
  | true =>
      rw [← on_eq] at session_eq
      refine ⟨fine₁, fun _ held₃ step => ?_⟩
      have held₃_eq : held₃ = held₂.give .session := step
      have locked_eq : held₂.locked = true := by
        rw [held₁_eq]
        exact shares.locked_eq.trans on_eq.symm
      have session₃_eq : held₃.session = 1 := by
        rw [held₃_eq]
        exact congrArg (· - 1) session_eq
      have fine₃ : Fine held₃ := by
        refine ⟨?_, fun _ => session₃_eq ▸ Nat.one_pos, ?_, ?_⟩
        · rw [held₃_eq]
          change (held₂.unheld || held₂.session == 0) = false
          rw [fine₁.balanced, session_eq]
          rfl
        · -- the session goes on, so this gives nothing of it back
          rw [held₃_eq]
          change ∀ phy ∈ if held₂.locked then held₂.released else _, phy.Restored
          rw [if_pos locked_eq]
          exact fine₁.restored
        · rw [held₃_eq]
          exact fine₁.once
      apply holds_begun fine₃ _ session₃_eq
      rw [held₃_eq]
      exact call_eq

/-- A begin leaves the session's lock held once where it succeeds and not at all where it
fails, whatever it found. -/
theorem holds_tricoreFlashBegin (fine : Fine held) (shares : Shares call locked held) :
    tricoreFlashBegin.Holds device Fine (fun ok held' => Shares call ok held') held := by
  refine ⟨fine, fun on held₁ step => ?_⟩
  obtain ⟨-, rfl⟩ := step
  cases on with
  | true => exact holds_joined fine shares
  | false =>
      refine (holds_stopTrace fine shares).bind fun _ held₂ fine₂ shares₂ => ?_
      exact holds_joined fine₂ shares₂

theorem holds_tricoreFlashApply (fine : Fine held) (shares : Shares call locked held) :
    tricoreFlashApply.Holds device Fine (fun _ held' => Shares call locked held') held := by
  refine (holds_answer fine shares).bind fun laid held₁ fine₁ shares₁ => ?_
  cases laid with
  | false => exact ⟨fine₁, shares₁⟩
  | true => exact holds_target fine₁ shares₁

theorem holds_tricoreFlashEnd (fine : Fine held) (shares : Shares call locked held) :
    tricoreFlashEnd.Holds device Fine (fun _ held' => Shares call false held') held := by
  refine (holds_target fine shares).bind fun ok held₁ fine₁ shares₁ => ?_
  refine (holds_sessionUnlock fine₁ shares₁).bind fun _ held₂ fine₂ shares₂ => ?_
  exact ⟨fine₂, shares₂⟩

/-- A write can leave a session on, its own or one before it. -/
theorem holds_writeLocked (fine : Fine held) (shares : Shares call locked held) :
    writeLocked.Holds device Fine (fun _ held' => ∃ on, Shares call on held') held := by
  refine (holds_answer fine shares).bind fun regions held₁ fine₁ shares₁ => ?_
  cases regions with
  | false => exact ⟨fine₁, locked, shares₁⟩
  | true =>
      refine (holds_tricoreFlashBegin fine₁ shares₁).bind fun begun held₂ fine₂ shares₂ => ?_
      cases begun with
      | false => exact ⟨fine₂, false, shares₂⟩
      | true =>
          refine (holds_tricoreFlashApply fine₂ shares₂).bind fun applied held₃ fine₃ shares₃ => ?_
          cases applied with
          | false => exact ⟨fine₃, true, shares₃⟩
          | true =>
              refine (holds_target fine₃ shares₃).bind fun ucb held₄ fine₄ shares₄ => ?_
              refine (holds_tricoreFlashEnd fine₄ shares₄).bind fun ended held₅ fine₅ shares₅ => ?_
              cases ended with
              | false => exact ⟨fine₅, false, shares₅⟩
              | true => exact ⟨fine₅, false, shares₅⟩

theorem holds_tricoreFlashWrite (fine : Fine held) (shares : Shares call locked held) :
    tricoreFlashWrite.Holds device Fine (fun _ held' => Shares call false held') held := by
  refine (holds_stopTrace fine shares).bind fun _ held₁ fine₁ shares₁ => ?_
  refine (holds_lock fine₁ shares₁).bind fun _ held₂ fine₂ shares₂ => ?_
  refine (holds_writeLocked fine₂ shares₂).bind fun ok held₃ fine₃ written => ?_
  obtain ⟨on, shares₃⟩ := written
  refine (holds_sessionUnlock fine₃ shares₃).bind fun _ held₄ fine₄ shares₄ => ?_
  refine (holds_unlock fine₄ shares₄).bind fun _ held₅ fine₅ shares₅ => ?_
  exact ⟨fine₅, shares₅⟩

/-- A call leaves the session on where it did not end it. -/
theorem holds_call (called : Call) (fine : Fine held) (shares : Shares 0 locked held) :
    called.run.Holds device Fine
      (fun ok held' => ∃ on, Shares 0 on held' ∧ (called.Ends ok → on = false)) held := by
  cases called with
  | begin =>
      refine (holds_tricoreFlashBegin fine shares).mono (fun _ => id) fun ok held' _ shares' => ?_
      exact ⟨ok, shares', id⟩
  | apply =>
      refine (holds_tricoreFlashApply fine shares).mono (fun _ => id) fun ok held' _ shares' => ?_
      exact ⟨locked, shares', False.elim⟩
  | write =>
      refine (holds_tricoreFlashWrite fine shares).mono (fun _ => id) fun ok held' _ shares' => ?_
      exact ⟨false, shares', fun _ => rfl⟩
  | «end» =>
      refine (holds_tricoreFlashEnd fine shares).mono (fun _ => id) fun ok held' _ shares' => ?_
      exact ⟨false, shares', fun _ => rfl⟩

/-- Between calls. -/
theorem After.shares
    {calls : List (Call × Bool)}
    (after : After calls held) :
    Fine held ∧ ∃ on, Shares 0 on held := by
  induction after with
  | start phy => exact ⟨⟨rfl, nofun, nofun, nofun⟩, false, ⟨rfl, rfl, rfl, nofun⟩⟩
  | between _ joined inductionHypothesis =>
      obtain ⟨fine, on, shares⟩ := inductionHypothesis
      refine ⟨⟨fine.balanced, fine.covered, fine.restored, fine.once⟩, on,
        ⟨shares.call_eq, shares.locked_eq, shares.session_eq, fun on_eq => ?_⟩⟩
      exact shares.attached (joined (shares.locked_eq.trans on_eq)) on_eq
  | call _ returns inductionHypothesis =>
      obtain ⟨fine, on, shares⟩ := inductionHypothesis
      obtain ⟨fine', on', shares', -⟩ := (holds_call _ fine shares).of_returns returns
      exact ⟨fine', on', shares'⟩

theorem Shares.depth_eq (shares : Shares 0 locked held) :
    held.depth = if held.locked then 1 else 0 := by
  rw [Held.depth, shares.call_eq, shares.session_eq, shares.locked_eq, Nat.add_zero]

/-- After any calls, the task holds the DAP lock once if the session is on and not at all
otherwise; wherever a further call stands, nothing was given back that was not held,
the session's lock was given back with the attach clock alone, and the target was
talked to with the session's lock held once or not at all; and a call that ends the
session leaves the lock free. -/
theorem session_lock_balanced
    {calls : List (Call × Bool)}
    (after : After calls held)
    (called : Call) :
    (held.depth = if held.locked then 1 else 0) ∧
      (∀ held', Program.Reaches device called.run held held' → Fine held') ∧
      (∀ ok held', Program.Returns device called.run held ok held' →
        (held'.depth = if held'.locked then 1 else 0) ∧
          (called.Ends ok → held'.locked = false ∧ held'.depth = 0)) := by
  obtain ⟨fine, on, shares⟩ := after.shares
  have holds := holds_call called fine shares
  refine ⟨shares.depth_eq, fun held' reaches => holds.of_reaches reaches,
    fun ok held' returns => ?_⟩
  obtain ⟨-, on', shares', ends⟩ := holds.of_returns returns
  refine ⟨shares'.depth_eq, fun ended => ?_⟩
  have locked_eq : held'.locked = false := shares'.locked_eq.trans (ends ended)
  exact ⟨locked_eq, by rw [shares'.depth_eq, locked_eq]; rfl⟩

/-- A begin that finds no link. -/
def unlinked : Held :=
  { session := 0
    call := 0
    locked := false
    phy := ⟨true, false, attachDapDiv⟩
    unheld := false
    released := [⟨true, false, attachDapDiv⟩]
    worked := [(1, true)] }

theorem unlinked_after : After [(.begin, false)] unlinked := by
  have start := After.start ⟨true, false, flashDapDiv⟩
  have linkUp : device .linkUp ⟨1, 0, true, ⟨true, false, flashDapDiv⟩, false, [], []⟩ false
      ⟨1, 0, true, ⟨true, false, attachDapDiv⟩, false, [], [(1, true)]⟩ :=
    ⟨⟨true, false, attachDapDiv⟩, Or.inr ⟨rfl, rfl, nofun⟩, rfl⟩
  refine After.call start ?_
  refine .step (show device .sessionLocked _ false _ from ⟨rfl, rfl⟩) ?_
  refine .step (show device .answer _ false _ from rfl) ?_
  refine .step (show device (.lock .session) _ () _ from rfl) ?_
  refine .step (show device .sessionLocked _ false _ from ⟨rfl, rfl⟩) ?_
  refine .step (show device (.setSession true) _ () _ from rfl) ?_
  refine .step linkUp ?_
  refine .step (show device .sessionLocked _ true _ from ⟨rfl, rfl⟩) ?_
  refine .step (show device (.setSession false) _ () _ from rfl) ?_
  refine .step (show device .narrow _ true _ from ⟨rfl, rfl⟩) ?_
  refine .step (show device (.setDiv attachDapDiv) _ () _ from rfl) ?_
  refine .step (show device (.unlock .session) _ () _ from rfl) ?_
  exact .done

theorem session_lock_balanced_unlinked : unlinked.depth = 0 :=
  (session_lock_balanced unlinked_after .end).1

end Locking
end Flash
end TriCoreDap
