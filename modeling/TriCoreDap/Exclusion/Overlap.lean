import TriCoreDap.Exclusion.Tasks
import TriCoreDap.Library.Sender

/-!
# When a trace runs into a flash session

Between the look at `s_running` and the session there is nothing that keeps a
trace from being there.  Once a session has begun, the lock does: the drain task
is created with the lock held, and not by a task that is in a session.
-/

namespace TriCoreDap
namespace Exclusion

namespace Code

/-- Code of a task that holds the lock `depth` times and is or is not in a session: it
gives the lock back as often as it takes it, begins and ends its sessions with the
lock held, creates the drain with the lock held and outside of a session, and stores
`s_flash_active` without the lock. -/
def fine : (depth : Nat) → (session : Bool) → Code → Bool
  | depth, session, .done => depth == 0 && !session
  | depth, session, .act what next =>
      match what with
      | .unlock => decide ((if session then 1 else 0) < depth) && next.fine (depth - 1) session
      | .joinSession =>
          decide ((if session then 1 else 0) < depth) &&
            next.fine (if session then depth - 1 else depth) session
      | .setSession => decide (0 < depth) && next.fine depth true
      | .sessionUnlock =>
          decide (0 < depth) && next.fine (if session then depth - 1 else depth) false
      | .setActive _ => depth == 0 && next.fine depth session
      | .stopTrace | .runTrace | .setRunning => next.fine depth session
  | depth, session, .test _ yes no => yes.fine depth session && no.fine depth session
  | depth, session, .lock next => next.fine (depth + 1) session
  | depth, session, .access next | depth, session, .flush _ next
  | depth, session, .waitDrain _ next => next.fine depth session
  | depth, session, .createDrain next failed =>
      decide (0 < depth) && !session && next.fine depth session && failed.fine depth session

end Code

theorem Request.fine_code (request : Request) : request.code.fine 0 false = true := by
  cases request <;> decide

namespace System

/-- The task is in a session. -/
def inSession (system : System) (task : TaskId) : Bool :=
  system.session && decide (0 < system.lock.depth task)

/-- A flash session and a drain in its loop. -/
def Overlap (system : System) : Prop :=
  system.session = true ∧ system.drain.draining = true

instance (system : System) : Decidable system.Overlap :=
  inferInstanceAs (Decidable (_ ∧ _))

/-- The task's next step begins a session. -/
def begins (system : System) (task : TaskId) : Bool :=
  match system.code task with
  | .act .setSession _ => true
  | _ => false

/-- No session begins while the drain is in its loop. -/
def Allowed (system : System) : Step → Prop
  | .run task _ => system.begins task = true → system.drain.draining = false
  | _ => True

instance (system : System) : (step : Step) → Decidable (system.Allowed step)
  | .run _ _ => inferInstanceAs (Decidable (_ → _))
  | .request _ | .drain _ => inferInstanceAs (Decidable True)

structure Kept (system : System) : Prop where
  fine : ∀ task, (system.code task).fine (system.lock.depth task) (system.inSession task) = true
  held : system.session = true → ∃ task, 0 < system.lock.depth task
  quiet : system.session = true → system.drain.draining = false

theorem kept_idle : idle.Kept where
  fine := fun _ => rfl
  held := nofun
  quiet := nofun

variable {system next : System} {task : TaskId}

/-- What a step of a task keeps where it leaves the lock of the others alone, and
the session as well unless the task has the lock. -/
theorem Kept.of_step
    (kept : system.Kept)
    (task : TaskId)
    (others : ∀ other ≠ task, next.code other = system.code other ∧
      next.lock.depth other = system.lock.depth other)
    (sameSession : next.session = system.session ∨ 0 < system.lock.depth task)
    (fine : (next.code task).fine (next.lock.depth task) (next.inSession task) = true)
    (held : next.session = true → ∃ task, 0 < next.lock.depth task)
    (quiet : next.session = true → next.drain.draining = false) : next.Kept where
  fine := by
    intro other
    by_cases same : other = task
    · rw [same]
      exact fine
    · obtain ⟨code_eq, depth_eq⟩ := others other same
      have inSession_eq : next.inSession other = system.inSession other := by
        unfold inSession
        rw [depth_eq]
        obtain session_eq | locked := sameSession
        · rw [session_eq]
        · have none : ¬0 < system.lock.depth other := fun locked' =>
            same (RecLock.eq_of_depth_pos locked' locked)
          rw [decide_eq_false none, Bool.and_false, Bool.and_false]
      rw [code_eq, depth_eq, inSession_eq]
      exact kept.fine other
  held := held
  quiet := quiet

/-- A step that changes nothing but where the task stands. -/
theorem Kept.go
    (kept : system.Kept)
    {code : Code}
    (fine : code.fine (system.lock.depth task) (system.inSession task) = true) :
    (system.go task code).Kept := by
  refine kept.of_step task ?_ (Or.inl rfl) ?_ kept.held kept.quiet
  · intro other different
    exact ⟨Function.update_of_ne different _ _, rfl⟩
  · change (Function.update system.code task code task).fine _ _ = true
    rwa [Function.update_self]

theorem kept_request (kept : system.Kept) (request : Request) :
    (system.step (.request request)).Kept := by
  rw [step]
  split
  · next idle =>
    have fine := kept.fine request.task
    rw [idle, Code.fine, Bool.and_eq_true, beq_iff_eq, Bool.not_eq_true'] at fine
    apply kept.go
    rw [fine.1, fine.2]
    exact request.fine_code
  · exact kept

theorem Kept.lock
    (kept : system.Kept)
    (opened : system.lock.openTo task = true)
    {code : Code}
    (fine : code.fine (system.lock.depth task + 1) (system.inSession task) = true) :
    (({ system with lock := system.lock.take task } : System).go task code).Kept := by
  have inSession_eq :
      (({ system with lock := system.lock.take task } : System).go task code).inSession task =
        system.inSession task := by
    unfold inSession
    change (system.session && decide (0 < (system.lock.take task).depth task)) = _
    rw [RecLock.depth_take opened]
    cases session : system.session with
    | false => rfl
    | true =>
        obtain ⟨holder, holds⟩ := kept.held session
        rw [RecLock.eq_of_openTo opened holds] at holds
        simp [holds]
  refine kept.of_step task ?_ (Or.inl rfl) ?_ ?_ kept.quiet
  · intro other different
    exact ⟨Function.update_of_ne different _ _, RecLock.depth_take_other opened different⟩
  · rw [inSession_eq]
    change (Function.update system.code task code task).fine ((system.lock.take task).depth task) _ =
      true
    rwa [Function.update_self, RecLock.depth_take opened]
  · intro _
    refine ⟨task, ?_⟩
    change 0 < (system.lock.take task).depth task
    rw [RecLock.depth_take opened]
    exact Nat.succ_pos _

/-- A step of a task that has the lock, with what it leaves of its own share. -/
theorem Kept.own_step
    (kept : system.Kept)
    (locked : 0 < system.lock.depth task)
    {code : Code}
    (code_eq : next.code = Function.update system.code task code)
    (others : ∀ other ≠ task, next.lock.depth other = system.lock.depth other)
    (fine : code.fine (next.lock.depth task) (next.inSession task) = true)
    (held : next.session = true → 0 < next.lock.depth task)
    (quiet : next.session = true → next.drain.draining = false) : next.Kept := by
  refine kept.of_step task ?_ (Or.inr locked) ?_ (fun session => ⟨task, held session⟩) quiet
  · intro other different
    rw [code_eq]
    exact ⟨Function.update_of_ne different _ _, others other different⟩
  · rw [code_eq, Function.update_self]
    exact fine

/-- With the lock the session is one's own, if there is one. -/
theorem inSession_of_depth_pos (locked : 0 < system.lock.depth task) :
    system.inSession task = system.session := by
  rw [inSession, decide_eq_true locked, Bool.and_true]

theorem Kept.perform
    (kept : system.Kept)
    {act : Act}
    {code : Code}
    (fine : (Code.act act code).fine (system.lock.depth task) (system.inSession task) = true)
    (quiet : act = .setSession → system.drain.draining = false) :
    ((system.perform task act).go task code).Kept := by
  have depth_give := RecLock.depth_give system.lock task
  have flagsOnly (plain : (system.go task code).Kept)
      (next : System)
      (same : next.lock = system.lock ∧ next.session = system.session ∧ next.drain = system.drain ∧
        next.code = Function.update system.code task code) : next.Kept := by
    obtain ⟨lock_eq, session_eq, drain_eq, code_eq⟩ := same
    obtain ⟨fine, held, quiet⟩ := plain
    refine ⟨fun other => ?_, ?_, ?_⟩
    · rw [inSession, lock_eq, session_eq, code_eq]
      exact fine other
    · rw [lock_eq, session_eq]
      exact held
    · rw [session_eq, drain_eq]
      exact quiet
  cases act with
  | stopTrace => exact flagsOnly (kept.go fine) _ ⟨rfl, rfl, rfl, rfl⟩
  | runTrace => exact flagsOnly (kept.go fine) _ ⟨rfl, rfl, rfl, rfl⟩
  | setRunning => exact flagsOnly (kept.go fine) _ ⟨rfl, rfl, rfl, rfl⟩
  | setActive on =>
      rw [Code.fine, Bool.and_eq_true] at fine
      exact flagsOnly (kept.go fine.2) _ ⟨rfl, rfl, rfl, rfl⟩
  | unlock =>
      rw [Code.fine, Bool.and_eq_true, decide_eq_true_iff] at fine
      obtain ⟨more, fine⟩ := fine
      have locked : 0 < system.lock.depth task := by omega
      rw [inSession_of_depth_pos locked] at more fine
      have stillHeld (session : system.session = true) : 0 < (system.lock.give task).depth task := by
        rw [session, if_pos rfl] at more
        omega
      refine kept.own_step locked rfl (fun other => RecLock.depth_give_other _) ?_ stillHeld kept.quiet
      change code.fine ((system.lock.give task).depth task)
        (system.session && decide (0 < (system.lock.give task).depth task)) = true
      cases session : system.session with
      | false =>
          rw [depth_give]
          rwa [session] at fine
      | true =>
          rw [decide_eq_true (stillHeld session), depth_give]
          rwa [session] at fine
  | joinSession =>
      rw [Code.fine, Bool.and_eq_true, decide_eq_true_iff] at fine
      obtain ⟨more, fine⟩ := fine
      have locked : 0 < system.lock.depth task := by omega
      rw [inSession_of_depth_pos locked] at more fine
      cases session : system.session with
      | false =>
          rw [session] at fine
          have plain : (system.go task code).Kept := by
            apply kept.go
            rw [inSession_of_depth_pos locked, session]
            exact fine
          have same : system.perform task .joinSession = system := by
            rw [System.perform, if_neg (by rw [session]; nofun)]
          rwa [same]
      | true =>
          rw [session] at fine more
          have stillHeld : 0 < (system.lock.give task).depth task := by
            rw [if_pos rfl] at more
            omega
          have joined : system.perform task .joinSession =
              { system with lock := system.lock.give task } := by
            rw [System.perform, if_pos session]
          rw [joined]
          refine kept.own_step locked rfl (fun other => RecLock.depth_give_other _) ?_
            (fun _ => stillHeld) kept.quiet
          change code.fine ((system.lock.give task).depth task)
            (system.session && decide (0 < (system.lock.give task).depth task)) = true
          rw [session, decide_eq_true stillHeld, depth_give]
          exact fine
  | setSession =>
      rw [Code.fine, Bool.and_eq_true, decide_eq_true_iff] at fine
      obtain ⟨locked, fine⟩ := fine
      refine kept.own_step locked rfl (fun _ _ => rfl) ?_ (fun _ => locked) (fun _ => quiet rfl)
      change code.fine (system.lock.depth task) (true && decide (0 < system.lock.depth task)) = true
      rw [decide_eq_true locked]
      exact fine
  | sessionUnlock =>
      rw [Code.fine, Bool.and_eq_true, decide_eq_true_iff] at fine
      obtain ⟨locked, fine⟩ := fine
      rw [inSession_of_depth_pos locked] at fine
      cases session : system.session with
      | false =>
          rw [session] at fine
          have plain : (system.go task code).Kept := by
            apply kept.go
            rw [inSession_of_depth_pos locked, session]
            exact fine
          have same : system.perform task .sessionUnlock = system := by
            rw [System.perform, if_neg (by rw [session]; nofun)]
          rwa [same]
      | true =>
          rw [session] at fine
          have ended : system.perform task .sessionUnlock =
              { system with session := false, lock := system.lock.give task } := by
            rw [System.perform, if_pos session]
          rw [ended]
          refine kept.own_step locked rfl (fun other => RecLock.depth_give_other _) ?_ nofun nofun
          change code.fine ((system.lock.give task).depth task) false = true
          rw [depth_give]
          exact fine

theorem kept_run
    (kept : system.Kept)
    (outcome : Bool)
    (allowed : system.begins task = true → system.drain.draining = false) :
    (system.run task outcome).Kept := by
  have fine := kept.fine task
  unfold run
  split
  · exact kept
  · next act next code =>
    rw [code] at fine
    apply kept.perform fine
    rintro rfl
    apply allowed
    rw [begins, code]
  · next test yes no code =>
    rw [code, Code.fine, Bool.and_eq_true] at fine
    have plain : (system.go task (if system.holds outcome test then yes else no)).Kept := by
      apply kept.go
      split
      · exact fine.1
      · exact fine.2
    cases test <;> exact { plain with }
  · next next code =>
    rw [code, Code.fine] at fine
    split
    · next opened => exact kept.lock opened fine
    · exact kept
  · next next code =>
    rw [code, Code.fine] at fine
    split
    · exact kept.go fine
    · exact kept
  · next next code =>
    rw [code, Code.fine] at fine
    exact kept.go fine
  · next left next code =>
    rw [code, Code.fine] at fine
    split
    · apply kept.go
      split <;> exact fine
    · exact kept
  · next next code =>
    rw [code, Code.fine] at fine
    exact kept.go fine
  · next left next code =>
    rw [code, Code.fine] at fine
    apply kept.go
    split <;> exact fine
  · next next failed code =>
    rw [code, Code.fine, Bool.and_eq_true, Bool.and_eq_true, Bool.and_eq_true, decide_eq_true_iff,
      Bool.not_eq_true'] at fine
    obtain ⟨⟨⟨locked, outside⟩, nextFine⟩, failedFine⟩ := fine
    rw [inSession_of_depth_pos locked] at outside
    split
    · split
      · have plain := kept.go nextFine
        exact ⟨plain.fine, plain.held, fun session => by
          have session' : system.session = true := session
          rw [outside] at session'
          cases session'⟩
      · exact kept.go failedFine
    · exact kept.go nextFine

theorem kept_drainStep (kept : system.Kept) (outcome : Bool) : (system.drainStep outcome).Kept := by
  unfold drainStep
  have quiet := kept.quiet
  split
  · exact kept
  · next atLoop =>
    rw [atLoop] at quiet
    exact ⟨kept.fine, kept.held, fun session => absurd (quiet session) nofun⟩
  · next inPoll =>
    rw [inPoll] at quiet
    exact ⟨kept.fine, kept.held, fun session => absurd (quiet session) nofun⟩
  · next inPass =>
    rw [inPass] at quiet
    split
    · exact ⟨kept.fine, kept.held, fun session => absurd (quiet session) nofun⟩
    · exact kept
  · exact ⟨kept.fine, kept.held, fun _ => rfl⟩

theorem kept_step (system : System) (step : Step) (kept : system.Kept)
    (allowed : system.Allowed step) : (system.step step).Kept := by
  cases step with
  | request request => exact kept_request kept request
  | run task outcome => exact kept_run kept outcome allowed
  | drain outcome => exact kept_drainStep kept outcome

theorem Kept.no_overlap (kept : system.Kept) : ¬system.Overlap := by
  rintro ⟨session, draining⟩
  rw [kept.quiet session] at draining
  cases draining

/-- A session that begins while the drain is in its loop overlaps it. -/
theorem overlap_step (system : System) (step : Step) (forbidden : ¬system.Allowed step) :
    (system.step step).Overlap := by
  cases step with
  | request => exact absurd trivial forbidden
  | drain => exact absurd trivial forbidden
  | run task outcome =>
      rw [Allowed, Classical.not_imp, Bool.not_eq_false] at forbidden
      obtain ⟨begins, draining⟩ := forbidden
      rw [System.begins] at begins
      split at begins
      · next next code =>
        rw [step, run, code]
        exact ⟨rfl, draining⟩
      · cases begins

end System

/-- In every interleaving a trace and a flash session overlap exactly where a session
begins while the drain is in its loop. -/
theorem no_overlap_iff (steps : List Step) :
    (∀ visited ∈ visits System.step System.idle steps, ¬visited.Overlap) ↔
      Along System.step System.Allowed System.idle steps :=
  visits_good_iff System.kept_step
    (fun _ => System.Kept.no_overlap)
    (fun system step _ forbidden fine => fine (System.overlap_step system step forbidden))
    System.kept_idle steps

/-- A start that was let through puts its drain up between the flash's look at
`s_running` and its lock. -/
def startDuringWrite : List Step :=
  [.request .start, .run .http false, .run .http false,
    .request .write, .run .flasher false, .run .flasher false,
    .run .http false, .run .http false, .run .http true, .run .http true, .run .http false,
    .run .http true, .run .http false,
    .run .flasher false, .run .flasher true, .run .flasher false, .run .flasher false,
    .run .flasher false, .run .flasher false, .run .flasher false]

theorem startDuringWrite_overlaps :
    ¬∀ visited ∈ visits System.step System.idle startDuringWrite, ¬visited.Overlap := by
  decide

end Exclusion
end TriCoreDap
