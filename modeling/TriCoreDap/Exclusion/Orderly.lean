import TriCoreDap.Exclusion.Overlap

/-!
# Starts, stops and flashes in good order

A flash stops the trace before its session, a start is refused while a flash is
on, and a stop waits for the drain task to be gone.  Between each look at a flag
and what it is for there is room for another task.  Where none gets in there, and
no wait is given up, a trace and a flash session do not overlap.
-/

namespace TriCoreDap
namespace Exclusion

namespace Code

/-- A start that may still put up its drain. -/
def starts : Code → Bool
  | .done => false
  | .act _ next | .lock next | .access next | .flush _ next | .waitDrain _ next => next.starts
  | .test _ yes no => yes.starts || no.starts
  | .createDrain _ _ => true

/-- A flash whose session may still begin, with `s_flash_active` as it is now. -/
def flashes : Code → Bool
  | .done => false
  | .act what next =>
      match what with
      | .setSession => true
      | .setActive _ => false
      | _ => next.flashes
  | .test _ yes no => yes.flashes || no.flashes
  | .lock next | .access next | .flush _ next | .waitDrain _ next => next.flashes
  | .createDrain next failed => next.flashes || failed.flashes

/-- Between a stop's exchange of `s_running` and the end of its wait for the drain, or
between a start's drain and its setting of `s_running`. -/
def tends : Code → Bool
  | .act what next => what == .setRunning || next.tends
  | .access next | .flush _ next => next.tends
  | .waitDrain _ _ => true
  | .done | .test _ _ _ | .lock _ | .createDrain _ _ => false

/-- About to exchange `s_running`. -/
def takes : Code → Bool
  | .test .takeRunning _ _ => true
  | _ => false

/-- About to look at `s_running`, or at `s_session_locked` where GDB's load begins. -/
def looks (task : TaskId) : Code → Bool
  | .test .running _ _ => true
  | .test .session _ _ => task == .gdb
  | _ => false

/-- A start past its look at `s_flash_active`. -/
def pastActive : Code → Bool
  | .test .flashActive _ _ => false
  | code => code.starts

/-- A start past its look at `s_session_locked` too. -/
def pastSession : Code → Bool
  | .test .flashActive _ _ | .test .session _ _ => false
  | code => code.starts

/-- The check the flash of this task is seen by: the write sets `s_flash_active` first,
GDB's load has its session alone. -/
def pastCheck (flash : TaskId) (code : Code) : Bool :=
  match flash with
  | .flasher => code.pastActive
  | _ => code.pastSession

/-- Code in the order of the source: a look at `s_running` leads to its exchange, and
that to the wait for the drain; a drain is put up by a start alone, which ends where
a check refuses it; a session begins in a flash alone, the write's with
`s_flash_active` set. -/
def proper (task : TaskId) : (active : Bool) → Code → Bool
  | _, .done => true
  | active, .act what next =>
      match what with
      | .setActive on =>
          task == .flasher && (!next.flashes || next.looks task) && next.proper task on
      | .setSession =>
          (task == .flasher && active || task == .gdb) && !next.tends && next.proper task active
      | .setRunning => task == .http && next.proper task active
      | _ => next.proper task active
  | active, .test what yes no =>
      (match what with
      | .flashActive => !yes.starts && !no.pastSession
      | .session => !yes.starts && (!no.flashes || no.looks task)
      | .running => yes.takes
      | .takeRunning => yes.tends
      | .succeeds => true) && yes.proper task active && no.proper task active
  | active, .lock next | active, .access next | active, .flush _ next
  | active, .waitDrain _ next => next.proper task active
  | active, .createDrain next failed =>
      task == .http && next.tends && next.proper task active && failed.proper task active

/-- What may be left to do after a step. -/
def rest : Code → List Code
  | .done => []
  | .act _ next | .lock next | .access next | .flush 0 next | .waitDrain 0 next => [next]
  | .test _ yes no => [yes, no]
  | .flush (left + 1) next => [next, .flush left next]
  | .waitDrain (left + 1) next => [next, .waitDrain left next]
  | .createDrain next failed => [next, failed]

end Code

theorem Request.proper_code (request : Request) (active : Bool) :
    request.code.proper request.task active = true := by
  cases request <;> cases active <;> decide

/-- A start begins with its checks. -/
theorem Request.pastCheck_code (request : Request) (flash : TaskId) :
    request.code.pastCheck flash = false := by
  cases request <;> cases flash <;> decide

/-- A flash begins with its look. -/
theorem Request.looks_code (request : Request) (flashes : request.code.flashes = true) :
    request.code.looks request.task = true := by
  cases request <;> first | rfl | cases flashes

namespace System

/-- No other task is between an exchange of `s_running` and the end of its wait, nor
between a drain and the setting of `s_running`. -/
def Alone (system : System) (task : TaskId) : Prop :=
  ∀ other ≠ task, (system.code other).tends = false

/-- Past its look at `s_running`, with its session still to begin. -/
def due (system : System) (task : TaskId) : Bool :=
  (system.code task).flashes &&
    (!(system.code task).looks task || decide (0 < system.lock.depth task))

/-- What is asked of a task's step before it.  Where a flash looks at `s_running` without
the lock, no start is past its check and still to put up its drain; where it finds it or
its exchange clear, no other task has a drain to see to.  No start gets past
`s_session_locked` while GDB's load is past its look at `s_running`.  No wait for the
drain is given up while it is in its loop. -/
def CarefulAt (system : System) (task : TaskId) : Code → Prop
  | .test .running yes no =>
      (yes.flashes || no.flashes) = true → system.lock.depth task = 0 →
        (system.code .http).pastCheck task = false ∧
          (system.running = false → system.Alone task)
  | .test .takeRunning _ no => no.flashes = true → system.running = false → system.Alone task
  | .test .session _ no => no.starts = true → system.session = false → system.due .gdb = false
  | .waitDrain 0 _ => system.drain.draining = false
  | _ => True

/-- Nothing gets in between a look at a flag and what it is for. -/
def Careful (system : System) : Step → Prop
  | .run task _ => system.CarefulAt task (system.code task)
  | .request _ | .drain _ => True

instance (system : System) (task : TaskId) : Decidable (system.Alone task) :=
  decidable_of_iff (∀ other ∈ [TaskId.http, .watcher, .flasher, .gdb], other ≠ task →
    (system.code other).tends = false)
    ⟨fun alone other => alone other (by cases other <;> decide), fun alone other _ => alone other⟩

instance (system : System) (task : TaskId) : (code : Code) → Decidable (system.CarefulAt task code)
  | .test .running _ _ => inferInstanceAs (Decidable (_ → _ → _ ∧ (_ → System.Alone _ _)))
  | .test .takeRunning _ _ => inferInstanceAs (Decidable (_ → _ → System.Alone _ _))
  | .test .session _ _ => inferInstanceAs (Decidable (_ → _ → _))
  | .waitDrain 0 _ => inferInstanceAs (Decidable (_ = _))
  | .test .flashActive _ _ | .test .succeeds _ _ | .waitDrain (_ + 1) _ | .done | .act _ _
  | .lock _ | .access _ | .flush _ _ | .createDrain _ _ => inferInstanceAs (Decidable True)

instance (system : System) : (step : Step) → Decidable (system.Careful step)
  | .run task _ => inferInstanceAs (Decidable (system.CarefulAt task (system.code task)))
  | .request _ | .drain _ => inferInstanceAs (Decidable True)

end System

namespace Code

variable {task : TaskId} {active : Bool} {code after : Code}

theorem task_of_flashes
    (proper : code.proper task active = true)
    (flashes : code.flashes = true) :
    task = .flasher ∧ active = true ∨ task = .gdb := by
  induction code generalizing active with
  | done => cases flashes
  | act what next inductionHypothesis =>
      cases what with
      | setActive on => cases flashes
      | setSession =>
          rw [Code.proper, Bool.and_eq_true, Bool.and_eq_true] at proper
          simpa using proper.1.1
      | setRunning =>
          rw [Code.proper, Bool.and_eq_true] at proper
          exact inductionHypothesis proper.2 flashes
      | _ => exact inductionHypothesis proper flashes
  | test what yes no yesHypothesis noHypothesis =>
      simp only [Code.proper, Bool.and_eq_true] at proper
      rw [Code.flashes, Bool.or_eq_true] at flashes
      obtain flashes | flashes := flashes
      · exact yesHypothesis proper.1.2 flashes
      · exact noHypothesis proper.2 flashes
  | lock next inductionHypothesis | access next inductionHypothesis
  | flush left next inductionHypothesis | waitDrain left next inductionHypothesis =>
      exact inductionHypothesis proper flashes
  | createDrain next failed nextHypothesis failedHypothesis =>
      rw [Code.proper, Bool.and_eq_true, Bool.and_eq_true] at proper
      rw [Code.flashes, Bool.or_eq_true] at flashes
      obtain flashes | flashes := flashes
      · exact nextHypothesis proper.1.2 flashes
      · exact failedHypothesis proper.2 flashes

/-- Only the write's own code depends on `s_flash_active`. -/
theorem proper_eq_of_ne (different : task ≠ .flasher) (one two : Bool) (code : Code) :
    code.proper task one = code.proper task two := by
  induction code generalizing one two with
  | done => rfl
  | act what next inductionHypothesis =>
      cases what <;> simp only [Code.proper, inductionHypothesis one two]
      case setSession => rw [beq_false_of_ne different, Bool.false_and, Bool.false_and]
  | test what yes no yesHypothesis noHypothesis =>
      simp only [Code.proper, yesHypothesis one two, noHypothesis one two]
  | lock next inductionHypothesis | access next inductionHypothesis
  | flush left next inductionHypothesis | waitDrain left next inductionHypothesis =>
      exact inductionHypothesis one two
  | createDrain next failed nextHypothesis failedHypothesis =>
      rw [Code.proper, Code.proper, nextHypothesis one two, failedHypothesis one two]

theorem starts_of_mem_rest (member : after ∈ code.rest) (starts : after.starts = true) :
    code.starts = true := by
  cases code with
  | done => cases member
  | test what yes no =>
      rw [Code.starts, Bool.or_eq_true]
      simp only [rest, List.mem_cons, List.not_mem_nil, or_false] at member
      obtain rfl | rfl := member
      · exact Or.inl starts
      · exact Or.inr starts
  | createDrain next failed => rfl
  | act _ next | lock next | access next =>
      rwa [List.mem_singleton.1 member] at starts
  | flush left next | waitDrain left next =>
      cases left with
      | zero => rwa [List.mem_singleton.1 member] at starts
      | succ left =>
          simp only [rest, List.mem_cons, List.not_mem_nil, or_false] at member
          obtain rfl | rfl := member <;> exact starts

/-- A step that stores `s_flash_active` apart, what flashes after a step did so before. -/
theorem flashes_of_mem_rest
    (member : after ∈ code.rest)
    (flashes : after.flashes = true) :
    code.flashes = true ∨ ∃ on, code = .act (.setActive on) after := by
  cases code with
  | done => cases member
  | test what yes no =>
      rw [Code.flashes, Bool.or_eq_true]
      simp only [rest, List.mem_cons, List.not_mem_nil, or_false] at member
      obtain rfl | rfl := member
      · exact Or.inl (Or.inl flashes)
      · exact Or.inl (Or.inr flashes)
  | createDrain next failed =>
      rw [Code.flashes, Bool.or_eq_true]
      simp only [rest, List.mem_cons, List.not_mem_nil, or_false] at member
      obtain rfl | rfl := member
      · exact Or.inl (Or.inl flashes)
      · exact Or.inl (Or.inr flashes)
  | act what next =>
      rw [List.mem_singleton.1 member] at flashes ⊢
      cases what with
      | setActive on => exact Or.inr ⟨on, rfl⟩
      | setSession => exact Or.inl rfl
      | _ => exact Or.inl flashes
  | lock next | access next =>
      rw [List.mem_singleton.1 member] at flashes
      exact Or.inl flashes
  | flush left next | waitDrain left next =>
      cases left with
      | zero =>
          rw [List.mem_singleton.1 member] at flashes
          exact Or.inl flashes
      | succ left =>
          simp only [rest, List.mem_cons, List.not_mem_nil, or_false] at member
          obtain rfl | rfl := member <;> exact Or.inl flashes

theorem proper_of_mem_rest
    (proper : code.proper task active = true)
    (member : after ∈ code.rest)
    (plain : ∀ on, code ≠ .act (.setActive on) after) : after.proper task active = true := by
  cases code with
  | done => cases member
  | test what yes no =>
      simp only [Code.proper, Bool.and_eq_true] at proper
      simp only [rest, List.mem_cons, List.not_mem_nil, or_false] at member
      obtain rfl | rfl := member
      · exact proper.1.2
      · exact proper.2
  | createDrain next failed =>
      rw [Code.proper, Bool.and_eq_true, Bool.and_eq_true] at proper
      simp only [rest, List.mem_cons, List.not_mem_nil, or_false] at member
      obtain rfl | rfl := member
      · exact proper.1.2
      · exact proper.2
  | act what next =>
      rw [List.mem_singleton.1 member] at plain ⊢
      cases what with
      | setActive on => exact absurd rfl (plain on)
      | setSession | setRunning =>
          rw [Code.proper, Bool.and_eq_true] at proper
          exact proper.2
      | _ => exact proper
  | lock next | access next =>
      rwa [List.mem_singleton.1 member]
  | flush left next | waitDrain left next =>
      cases left with
      | zero => rwa [List.mem_singleton.1 member]
      | succ left =>
          simp only [rest, List.mem_cons, List.not_mem_nil, or_false] at member
          obtain rfl | rfl := member <;> exact proper

theorem pastActive_of_starts
    (starts : code.starts = true)
    (past : ∀ yes no, code ≠ .test .flashActive yes no) : code.pastActive = true := by
  unfold pastActive
  split
  · next yes no => exact absurd rfl (past yes no)
  · exact starts

theorem pastSession_of_starts
    (starts : code.starts = true)
    (pastFlag : ∀ yes no, code ≠ .test .flashActive yes no)
    (pastLock : ∀ yes no, code ≠ .test .session yes no) : code.pastSession = true := by
  unfold pastSession
  split
  · next yes no => exact absurd rfl (pastFlag yes no)
  · next yes no => exact absurd rfl (pastLock yes no)
  · exact starts

theorem starts_of_pastActive (past : code.pastActive = true) : code.starts = true := by
  unfold pastActive at past
  split at past
  · cases past
  · exact past

theorem starts_of_pastSession (past : code.pastSession = true) : code.starts = true := by
  unfold pastSession at past
  split at past
  · cases past
  · cases past
  · exact past

theorem pastActive_of_pastSession (past : code.pastSession = true) : code.pastActive = true := by
  refine pastActive_of_starts (starts_of_pastSession past) ?_
  rintro yes no rfl
  cases past

end Code

namespace System

variable {system : System} {task : TaskId} {outcome : Bool}

@[simp] theorem go_code (system : System) (task : TaskId) (code : Code) :
    (system.go task code).code task = code :=
  Function.update_self _ _ _

theorem go_code_of_ne
    {other : TaskId}
    (different : other ≠ task)
    (code : Code) :
    (system.go task code).code other = system.code other :=
  Function.update_of_ne different _ _

@[simp] theorem go_lock (code : Code) : (system.go task code).lock = system.lock := rfl

/-- What a step of a task changes apart from where the task stands, which is `after`
then. -/
structure Changed (system : System) (task : TaskId) (after : Code) (next : System) : Prop where
  code : next.code = system.code
  rest : after ∈ (system.code task).rest
  depth_other : ∀ other ≠ task, next.lock.depth other = system.lock.depth other
  depth : (system.code task).looks task = true ∨
      (∃ on, system.code task = .act (.setActive on) after) →
    next.lock.depth task = system.lock.depth task
  flashActive : system.code task = .act (.setActive next.flashActive) after ∨
    next.flashActive = system.flashActive ∧ ∀ on, system.code task ≠ .act (.setActive on) after
  session : next.session = true →
    system.session = true ∨ system.code task = .act .setSession after
  running : next.running = false →
    system.running = false ∨ ∃ no, system.code task = .test .takeRunning after no
  draining : next.drain.draining = true →
    system.drain.draining = true ∨ ∃ failed, system.code task = .createDrain after failed
  tends : (system.code task).tends = true → next.drain.draining = true →
    after.tends = true ∨ (system.code task = .act .setRunning after ∧ next.running = true) ∨
      system.code task = .waitDrain 0 after
  looked : ∀ yes no, (system.code task = .test .flashActive yes no →
      after = if system.flashActive then yes else no) ∧
    (system.code task = .test .session yes no → after = if system.session then yes else no) ∧
    (system.code task = .test .running yes no ∨ system.code task = .test .takeRunning yes no →
      after = if system.running then yes else no)

theorem changed_perform {act : Act} {after : Code} (code : system.code task = .act act after) :
    system.Changed task after (system.perform task act) := by
  have give : ∀ other ≠ task, (system.lock.give task).depth other = system.lock.depth other :=
    fun _ different => RecLock.depth_give_other _ different
  cases act with
  | joinSession | sessionUnlock =>
      cases session : system.session <;>
        constructor <;> simp_all [perform, Code.rest, Code.looks, Code.tends]
  | _ => constructor <;> simp_all [perform, Code.rest, Code.looks, Code.tends]

theorem changed_afterTest
    {test : Test}
    {yes no : Code}
    (code : system.code task = .test test yes no) :
    system.Changed task (if system.holds outcome test then yes else no)
      (system.afterTest test) := by
  cases holds : system.holds outcome test <;> cases test <;> constructor <;>
    simp_all [afterTest, System.holds, Code.rest, Code.looks, Code.tends]

/-- A step that changes nothing but where the task stands. -/
theorem changed_same
    {after : Code}
    (rest : after ∈ (system.code task).rest)
    (noAct : ∀ act, system.code task ≠ .act act after)
    (noTest : ∀ test yes no, system.code task ≠ .test test yes no)
    (tends : (system.code task).tends = true → system.drain.draining = true →
      after.tends = true ∨ system.code task = .waitDrain 0 after) :
    system.Changed task after system where
  code := rfl
  rest := rest
  depth_other _ _ := rfl
  depth _ := rfl
  flashActive := Or.inr ⟨rfl, fun _ => noAct _⟩
  session := Or.inl
  running := Or.inl
  draining := Or.inl
  tends isEnd draining := (tends isEnd draining).imp_right Or.inr
  looked _ _ := ⟨fun code => absurd code (noTest _ _ _), fun code => absurd code (noTest _ _ _),
    fun code => code.elim (fun code => absurd code (noTest _ _ _))
      fun code => absurd code (noTest _ _ _)⟩

theorem run_cases (system : System) (task : TaskId) (outcome : Bool) :
    system.run task outcome = system ∨
      ∃ after next, system.Changed task after next ∧
        system.run task outcome = next.go task after := by
  unfold run
  split
  · exact Or.inl rfl
  · next act after code => exact Or.inr ⟨after, _, changed_perform code, rfl⟩
  · next test yes no code => exact Or.inr ⟨_, _, changed_afterTest code, rfl⟩
  · next after code =>
    split
    · next opened =>
      have take : ∀ other ≠ task,
          (system.lock.take task).depth other = system.lock.depth other :=
        fun _ different => RecLock.depth_take_other opened different
      refine Or.inr ⟨after, _, ?_, rfl⟩
      constructor <;> simp_all [Code.rest, Code.looks, Code.tends]
    · exact Or.inl rfl
  · next after code =>
    split
    · refine Or.inr ⟨after, system, changed_same ?_ ?_ ?_ ?_, rfl⟩ <;>
        simp +contextual [code, Code.rest, Code.tends]
    · exact Or.inl rfl
  · next after code =>
    refine Or.inr ⟨after, system, changed_same ?_ ?_ ?_ ?_, rfl⟩ <;>
      simp +contextual [code, Code.rest, Code.tends]
  · next left after code =>
    split
    · refine Or.inr ⟨_, system, changed_same ?_ ?_ ?_ ?_, rfl⟩ <;>
        cases outcome <;> simp +contextual [code, Code.rest, Code.tends]
    · exact Or.inl rfl
  · next after code =>
    refine Or.inr ⟨after, system, changed_same ?_ ?_ ?_ ?_, rfl⟩ <;>
      simp [code, Code.rest]
  · next left after code =>
    refine Or.inr ⟨_, system, changed_same ?_ ?_ ?_ ?_, rfl⟩ <;>
      by_cases gone : system.drain = .absent <;>
      simp [code, gone, Code.rest, Code.tends, DrainTask.draining]
  · next after failed code =>
    split
    · split
      · refine Or.inr ⟨after, _, ?_, rfl⟩
        constructor <;> simp_all [Code.rest, Code.looks, Code.tends]
      · refine Or.inr ⟨failed, system, changed_same ?_ ?_ ?_ ?_, rfl⟩ <;>
          simp [code, Code.rest, Code.tends]
    · refine Or.inr ⟨after, system, changed_same ?_ ?_ ?_ ?_, rfl⟩ <;>
        simp [code, Code.rest, Code.tends]

/-- No start gets in any more, and a drain that is left is the task's to stop. -/
structure Ready (system : System) (task : TaskId) : Prop where
  barred : (system.code .http).pastCheck task = false
  stops : system.drain.draining = true →
    (system.code task).tends = true ∨ (system.code task).takes = true

structure Orderly (system : System) : Prop where
  kept : system.Kept
  proper : ∀ task, (system.code task).proper task system.flashActive = true
  /-- Of a drain some task knows. -/
  owned : system.drain.draining = true →
    system.running = true ∨ ∃ task, (system.code task).tends = true
  barred : system.session = true → (system.code .http).pastSession = false
  ready : ∀ task, system.due task = true → system.Ready task

theorem orderly_idle : idle.Orderly where
  kept := kept_idle
  proper := fun _ => rfl
  owned := nofun
  barred := nofun
  ready := nofun

variable {next : System} {after : Code} {other : TaskId}

theorem Changed.code_go_of_ne
    (changed : system.Changed task after next)
    (different : other ≠ task) :
    (next.go task after).code other = system.code other := by
  rw [go_code_of_ne different, changed.code]

theorem Orderly.proper_go (orderly : system.Orderly) (changed : system.Changed task after next) :
    ∀ other, ((next.go task after).code other).proper other next.flashActive = true := by
  have own := orderly.proper task
  intro other
  by_cases same : other = task
  · subst same
    rw [go_code]
    obtain code | ⟨active, plain⟩ := changed.flashActive
    · rw [code, Code.proper, Bool.and_eq_true] at own
      exact own.2
    · rw [active]
      exact Code.proper_of_mem_rest own changed.rest plain
  · rw [changed.code_go_of_ne same]
    obtain code | ⟨active, -⟩ := changed.flashActive
    · rw [code, Code.proper, Bool.and_eq_true, Bool.and_eq_true, beq_iff_eq] at own
      rw [own.1.1] at same
      rw [Code.proper_eq_of_ne same next.flashActive system.flashActive]
      exact orderly.proper other
    · rw [active]
      exact orderly.proper other

/-- A start gets past `s_flash_active` where it is clear. -/
theorem Orderly.pastActive_go
    (orderly : system.Orderly)
    (changed : system.Changed task after next)
    (past : ((next.go task after).code .http).pastActive = true) :
    (system.code .http).pastActive = true ∨ system.flashActive = false := by
  by_cases same : TaskId.http = task
  · subst same
    rw [go_code] at past
    have starts := Code.starts_of_mem_rest changed.rest (Code.starts_of_pastActive past)
    by_cases active : system.flashActive = true
    · refine Or.inl (Code.pastActive_of_starts starts ?_)
      intro yes no code
      have after_eq := (changed.looked yes no).1 code
      rw [if_pos active] at after_eq
      have proper := orderly.proper .http
      rw [code, Code.proper] at proper
      simp only [Bool.and_eq_true, Bool.not_eq_true'] at proper
      rw [after_eq] at past
      rw [Code.starts_of_pastActive past] at proper
      cases proper.1.1.1
    · exact Or.inr ((Bool.not_eq_true _).mp active)
  · rw [changed.code_go_of_ne same] at past
    exact Or.inl past

/-- A start gets past `s_session_locked` where it is clear and no load is on its way. -/
theorem Orderly.pastSession_go
    (orderly : system.Orderly)
    (changed : system.Changed task after next)
    (careful : system.Careful (.run task outcome))
    (past : ((next.go task after).code .http).pastSession = true) :
    (system.code .http).pastSession = true ∨
      system.session = false ∧ system.due .gdb = false := by
  by_cases same : TaskId.http = task
  · subst same
    rw [go_code] at past
    have proper := orderly.proper .http
    have startsAfter := Code.starts_of_pastSession past
    have starts := Code.starts_of_mem_rest changed.rest startsAfter
    by_cases atLock : ∃ yes no, system.code .http = .test .session yes no
    · obtain ⟨yes, no, code⟩ := atLock
      have after_eq := (changed.looked yes no).2.1 code
      rw [code, Code.proper] at proper
      simp only [Bool.and_eq_true, Bool.not_eq_true'] at proper
      cases session : system.session with
      | true =>
          rw [session, if_pos rfl] at after_eq
          rw [after_eq, proper.1.1.1] at startsAfter
          cases startsAfter
      | false =>
          rw [session, if_neg (by decide)] at after_eq
          rw [after_eq] at startsAfter
          rw [Careful, code, CarefulAt] at careful
          exact Or.inr ⟨rfl, careful startsAfter session⟩
    · refine Or.inl (Code.pastSession_of_starts starts ?_ fun yes no code => atLock ⟨yes, no, code⟩)
      intro yes no code
      have after_eq := (changed.looked yes no).1 code
      rw [code, Code.proper] at proper
      simp only [Bool.and_eq_true, Bool.not_eq_true'] at proper
      cases active : system.flashActive with
      | true =>
          rw [active, if_pos rfl] at after_eq
          rw [after_eq, proper.1.1.1] at startsAfter
          cases startsAfter
      | false =>
          rw [active, if_neg (by decide)] at after_eq
          rw [after_eq, proper.1.1.2] at past
          cases past
  · rw [changed.code_go_of_ne same] at past
    exact Or.inl past

theorem Changed.due_go_of_ne
    (changed : system.Changed task after next)
    (different : other ≠ task) :
    (next.go task after).due other = system.due other := by
  rw [due, due, changed.code_go_of_ne different, go_lock, changed.depth_other other different]

/-- A flash comes to be due where it looks at `s_running`, or where it finds a session
that is on. -/
theorem Orderly.due_go
    (orderly : system.Orderly)
    (changed : system.Changed task after next)
    (due : (next.go task after).due task = true) :
    system.due task = true ∨
      (∃ yes no, system.code task = .test .running yes no ∧ (yes.flashes || no.flashes) = true ∧
        system.lock.depth task = 0) ∨
      task = .gdb ∧ system.session = true ∧ ∃ yes no, system.code task = .test .session yes no := by
  rw [System.due, go_code, go_lock, Bool.and_eq_true, Bool.or_eq_true, Bool.not_eq_true',
    decide_eq_true_iff] at due
  obtain ⟨flashesAfter, past⟩ := due
  have proper := orderly.proper task
  obtain flashes | ⟨on, code⟩ := Code.flashes_of_mem_rest changed.rest flashesAfter
  · by_cases before : system.due task = true
    · exact Or.inl before
    · rw [System.due, flashes, Bool.true_and, Bool.or_eq_true, Bool.not_eq_true',
        decide_eq_true_iff, not_or, Bool.not_eq_false] at before
      obtain ⟨looks, unlocked⟩ := before
      have depth_eq := changed.depth (Or.inl looks)
      have none : system.lock.depth task = 0 := by omega
      unfold Code.looks at looks
      split at looks
      · next yes no code =>
        rw [code, Code.flashes] at flashes
        exact Or.inr (Or.inl ⟨yes, no, code, flashes, none⟩)
      · next yes no code =>
        cases session : system.session with
        | true => exact Or.inr (Or.inr ⟨beq_iff_eq.mp looks, rfl, yes, no, code⟩)
        | false =>
            have after_eq := (changed.looked yes no).2.1 code
            rw [session, if_neg (by decide)] at after_eq
            rw [code, Code.proper] at proper
            simp only [Bool.and_eq_true, Bool.or_eq_true, Bool.not_eq_true'] at proper
            rw [after_eq] at past flashesAfter
            obtain idle | looksAfter := proper.1.1.2
            · rw [idle] at flashesAfter
              cases flashesAfter
            · rw [looksAfter, depth_eq, none] at past
              simp at past
      · cases looks
  · -- `s_flash_active` is set without the lock, and the look at `s_running` comes next
    have fine := orderly.kept.fine task
    rw [code, Code.fine, Bool.and_eq_true, beq_iff_eq] at fine
    have depth_eq := changed.depth (Or.inr ⟨on, code⟩)
    rw [code, Code.proper] at proper
    simp only [Bool.and_eq_true, Bool.or_eq_true, Bool.not_eq_true'] at proper
    obtain idle | looksAfter := proper.1.2
    · rw [idle] at flashesAfter
      cases flashesAfter
    · rw [looksAfter, depth_eq, fine.1] at past
      simp at past

theorem Orderly.owned_go
    (orderly : system.Orderly)
    (changed : system.Changed task after next)
    (careful : system.Careful (.run task outcome))
    (draining : next.drain.draining = true) :
    next.running = true ∨ ∃ other, ((next.go task after).code other).tends = true := by
  have proper := orderly.proper task
  obtain before | ⟨failed, code⟩ := changed.draining draining
  · obtain running | ⟨other, tends⟩ := orderly.owned before
    · cases stillRunning : next.running with
      | true => exact Or.inl rfl
      | false =>
          obtain stopped | ⟨no, code⟩ := changed.running stillRunning
          · rw [running] at stopped
            cases stopped
          · rw [code, Code.proper] at proper
            simp only [Bool.and_eq_true] at proper
            refine Or.inr ⟨task, ?_⟩
            rw [go_code]
            exact proper.1.1
    · by_cases same : other = task
      · subst same
        obtain tendsAfter | ⟨-, running⟩ | code := changed.tends tends draining
        · refine Or.inr ⟨other, ?_⟩
          rwa [go_code]
        · exact Or.inl running
        · rw [Careful, code, CarefulAt] at careful
          rw [before] at careful
          cases careful
      · refine Or.inr ⟨other, ?_⟩
        rwa [changed.code_go_of_ne same]
  · rw [code, Code.proper] at proper
    simp only [Bool.and_eq_true] at proper
    refine Or.inr ⟨task, ?_⟩
    rw [go_code]
    exact proper.1.1.2

/-- No other task puts up a drain while a flash is ready. -/
theorem Orderly.draining_of_ready
    (orderly : system.Orderly)
    (changed : system.Changed task after next)
    {flash : TaskId}
    (ready : system.Ready flash)
    (draining : next.drain.draining = true) : system.drain.draining = true := by
  obtain before | ⟨failed, code⟩ := changed.draining draining
  · exact before
  · have proper := orderly.proper task
    rw [code, Code.proper] at proper
    simp only [Bool.and_eq_true, beq_iff_eq] at proper
    have barred := ready.barred
    rw [← proper.1.1.1, code] at barred
    cases flash <;> cases barred

theorem Orderly.barred_go
    (orderly : system.Orderly)
    (changed : system.Changed task after next)
    (careful : system.Careful (.run task outcome))
    {flash : TaskId}
    (due : system.due flash = true)
    (barred : (system.code .http).pastCheck flash = false) :
    ((next.go task after).code .http).pastCheck flash = false := by
  have flashes : (system.code flash).flashes = true := by
    rw [System.due, Bool.and_eq_true] at due
    exact due.1
  apply Bool.eq_false_iff.mpr
  intro past
  obtain ⟨rfl, active⟩ | rfl := Code.task_of_flashes (orderly.proper flash) flashes
  · obtain before | inactive := orderly.pastActive_go changed past
    · rw [Code.pastCheck, before] at barred
      cases barred
    · rw [active] at inactive
      cases inactive
  · obtain before | ⟨-, notDue⟩ := orderly.pastSession_go changed careful past
    · change (system.code .http).pastSession = false at barred
      rw [before] at barred
      cases barred
    · rw [due] at notDue
      cases notDue

/-- A drain that is left when nobody else has one to see to and `s_running` is clear. -/
theorem Orderly.tends_of_alone
    (orderly : system.Orderly)
    (stopped : system.running = false)
    (alone : system.Alone task)
    (draining : system.drain.draining = true) : (system.code task).tends = true := by
  obtain running | ⟨other, tends⟩ := orderly.owned draining
  · rw [stopped] at running
    cases running
  · by_cases same : other = task
    · rwa [← same]
    · rw [alone other same] at tends
      cases tends

/-- What a flash that is due stays up to. -/
theorem Orderly.stops_go
    (orderly : system.Orderly)
    (changed : system.Changed task after next)
    (careful : system.Careful (.run task outcome))
    (due : system.due task = true)
    (flashesAfter : after.flashes = true)
    (draining : next.drain.draining = true) : after.tends = true ∨ after.takes = true := by
  have ready := orderly.ready task due
  have proper := orderly.proper task
  have before := orderly.draining_of_ready changed ready draining
  rw [System.due, Bool.and_eq_true] at due
  obtain tends | takes := ready.stops before
  · obtain tendsAfter | ⟨code, -⟩ | code := changed.tends tends draining
    · exact Or.inl tendsAfter
    · -- a start is no flash
      have owner := Code.task_of_flashes proper due.1
      rw [code, Code.proper, Bool.and_eq_true, beq_iff_eq] at proper
      rw [proper.1] at owner
      obtain ⟨impossible, -⟩ | impossible := owner <;> cases impossible
    · rw [Careful, code, CarefulAt] at careful
      rw [before] at careful
      cases careful
  · unfold Code.takes at takes
    split at takes
    · next yes no code =>
      have after_eq := (changed.looked yes no).2.2 (Or.inr code)
      rw [code, Code.proper] at proper
      simp only [Bool.and_eq_true] at proper
      cases running : system.running with
      | true =>
          rw [running, if_pos rfl] at after_eq
          rw [after_eq]
          exact Or.inl proper.1.1
      | false =>
          rw [running, if_neg (by decide)] at after_eq
          rw [Careful, code, CarefulAt] at careful
          rw [after_eq] at flashesAfter
          have tends := orderly.tends_of_alone running (careful flashesAfter running) before
          rw [code] at tends
          cases tends
    · cases takes

/-- What a flash finds at its look at `s_running`. -/
theorem Orderly.ready_of_look
    (orderly : system.Orderly)
    (changed : system.Changed task after next)
    (careful : system.Careful (.run task outcome))
    {yes no : Code}
    (code : system.code task = .test .running yes no)
    (flashes : (yes.flashes || no.flashes) = true)
    (unlocked : system.lock.depth task = 0) : (next.go task after).Ready task := by
  have proper := orderly.proper task
  have owner : task ≠ .http := by
    rintro rfl
    obtain ⟨impossible, -⟩ | impossible := Code.task_of_flashes proper (code ▸ flashes) <;>
      cases impossible
  rw [Careful, code, CarefulAt] at careful
  obtain ⟨barred, alone⟩ := careful flashes unlocked
  refine ⟨?_, fun draining => ?_⟩
  · rwa [changed.code_go_of_ne owner.symm]
  · rw [go_code]
    have before : system.drain.draining = true := by
      obtain before | ⟨failed, create⟩ := changed.draining draining
      · exact before
      · rw [code] at create
        cases create
    have after_eq := (changed.looked yes no).2.2 (Or.inl code)
    rw [code, Code.proper] at proper
    simp only [Bool.and_eq_true] at proper
    cases running : system.running with
    | true =>
        rw [running, if_pos rfl] at after_eq
        rw [after_eq]
        exact Or.inr proper.1.1
    | false =>
        have tends := orderly.tends_of_alone running (alone running) before
        rw [code] at tends
        cases tends

theorem Orderly.ready_go
    (orderly : system.Orderly)
    (changed : system.Changed task after next)
    (careful : system.Careful (.run task outcome))
    (flash : TaskId)
    (due : (next.go task after).due flash = true) : (next.go task after).Ready flash := by
  by_cases same : flash = task
  · subst same
    obtain before | ⟨yes, no, code, flashes, unlocked⟩ | ⟨rfl, session, yes, no, code⟩ :=
      orderly.due_go changed due
    · refine ⟨orderly.barred_go changed careful before (orderly.ready flash before).barred, ?_⟩
      rw [System.due, go_code, Bool.and_eq_true] at due
      rw [go_code]
      exact fun draining => orderly.stops_go changed careful before due.1 draining
    · exact orderly.ready_of_look changed careful code flashes unlocked
    · refine ⟨?_, fun draining => ?_⟩
      · rw [changed.code_go_of_ne (by decide)]
        exact orderly.barred session
      · obtain before | ⟨failed, create⟩ := changed.draining draining
        · rw [orderly.kept.quiet session] at before
          cases before
        · rw [code] at create
          cases create
  · rw [changed.due_go_of_ne same] at due
    have ready := orderly.ready flash due
    refine ⟨orderly.barred_go changed careful due ready.barred, fun draining => ?_⟩
    rw [changed.code_go_of_ne same]
    exact ready.stops (orderly.draining_of_ready changed ready draining)

/-- The session of a flash in good order finds no drain. -/
theorem Orderly.allowed (orderly : system.Orderly) (step : Step) : system.Allowed step := by
  cases step with
  | request request => trivial
  | drain outcome => trivial
  | run task outcome =>
      intro begins
      have proper := orderly.proper task
      have ready := orderly.ready task
      unfold System.begins at begins
      split at begins
      · next next code =>
        rw [System.due, code] at ready
        have stops := (ready rfl).stops
        rw [code, Code.proper] at proper
        simp only [Bool.and_eq_true, Bool.not_eq_true'] at proper
        rw [code, Code.tends, proper.1.2] at stops
        apply Bool.eq_false_iff.mpr
        intro draining
        obtain impossible | impossible := stops draining <;> cases impossible
      · cases begins

theorem orderly_run
    (orderly : system.Orderly)
    (careful : system.Careful (.run task outcome)) :
    (system.run task outcome).Orderly := by
  have kept := kept_step system (.run task outcome) orderly.kept (orderly.allowed _)
  rw [step] at kept
  obtain same | ⟨after, next, changed, run_eq⟩ := run_cases system task outcome
  · rwa [same]
  · rw [run_eq] at kept ⊢
    refine ⟨kept, orderly.proper_go changed, orderly.owned_go changed careful, ?_,
      orderly.ready_go changed careful⟩
    intro session
    apply Bool.eq_false_iff.mpr
    intro past
    obtain before | code := changed.session session
    · obtain past | ⟨off, -⟩ := orderly.pastSession_go changed careful past
      · rw [orderly.barred before] at past
        cases past
      · rw [before] at off
        cases off
    · have due : system.due task = true := by rw [System.due, code]; rfl
      have barred := orderly.barred_go changed careful due (orderly.ready task due).barred
      have pastActive := Code.pastActive_of_pastSession past
      cases task <;> simp_all [Code.pastCheck]

theorem pastCheck_request
    (request : Request)
    {flash : TaskId}
    (barred : (system.code .http).pastCheck flash = false) :
    ((system.go request.task request.code).code .http).pastCheck flash = false := by
  by_cases same : TaskId.http = request.task
  · rw [same, go_code]
    exact request.pastCheck_code flash
  · rwa [go_code_of_ne same]

theorem orderly_request
    (orderly : system.Orderly)
    (request : Request) :
    (system.step (.request request)).Orderly := by
  have kept := kept_request orderly.kept request
  rw [step] at kept ⊢
  split at kept
  · next idle =>
    rw [if_pos idle]
    have fine := orderly.kept.fine request.task
    rw [idle, Code.fine, Bool.and_eq_true, beq_iff_eq] at fine
    refine ⟨kept, fun other => ?_, fun draining => ?_, fun session => ?_, fun flash due => ?_⟩
    · by_cases same : other = request.task
      · rw [same, go_code]
        exact request.proper_code _
      · rw [go_code_of_ne same]
        exact orderly.proper other
    · obtain running | ⟨other, tends⟩ := orderly.owned draining
      · exact Or.inl running
      · have different : other ≠ request.task := by
          rintro rfl
          rw [idle] at tends
          cases tends
        refine Or.inr ⟨other, ?_⟩
        rwa [go_code_of_ne different]
    · have barred : (system.code .http).pastCheck .gdb = false := orderly.barred session
      exact pastCheck_request request barred
    · by_cases same : flash = request.task
      · rw [same, System.due, go_code, go_lock, fine.1, Bool.and_eq_true] at due
        rw [request.looks_code due.1] at due
        cases due.2
      · rw [System.due, go_code_of_ne same, go_lock] at due
        obtain ⟨barred, stops⟩ := orderly.ready flash due
        refine ⟨pastCheck_request request barred, ?_⟩
        rwa [go_code_of_ne same]
  · next busy =>
    rw [if_neg busy]
    exact orderly

theorem draining_drainStep
    (system : System)
    (outcome : Bool)
    (draining : (system.drainStep outcome).drain.draining = true) :
    system.drain.draining = true := by
  unfold drainStep at draining
  split at draining
  · exact draining
  · next atLoop => rw [atLoop]; rfl
  · next inPoll => rw [inPoll]; rfl
  · next inPass => rw [inPass]; rfl
  · cases draining

theorem drainStep_same (system : System) (outcome : Bool) :
    ∃ drain, system.drainStep outcome = { system with drain := drain } := by
  unfold drainStep
  split
  · exact ⟨_, rfl⟩
  · exact ⟨_, rfl⟩
  · exact ⟨_, rfl⟩
  · split
    · exact ⟨_, rfl⟩
    · exact ⟨_, rfl⟩
  · exact ⟨_, rfl⟩

theorem orderly_drainStep
    (orderly : system.Orderly)
    (outcome : Bool) :
    (system.drainStep outcome).Orderly := by
  have kept := kept_drainStep orderly.kept outcome
  have falls := draining_drainStep system outcome
  obtain ⟨drain, same⟩ := drainStep_same system outcome
  rw [same] at kept falls ⊢
  refine ⟨kept, orderly.proper, fun draining => orderly.owned (falls draining), orderly.barred,
    fun flash due => ?_⟩
  obtain ⟨barred, stops⟩ := orderly.ready flash due
  exact ⟨barred, fun draining => stops (falls draining)⟩

theorem orderly_step
    (system : System)
    (step : Step)
    (orderly : system.Orderly)
    (careful : system.Careful step) : (system.step step).Orderly := by
  cases step with
  | request request => exact orderly_request orderly request
  | run task outcome => exact orderly_run orderly careful
  | drain outcome => exact orderly_drainStep orderly outcome

end System

/-- Where every start, stop and flash is in good order, no trace runs in a flash session. -/
theorem no_overlap_of_careful
    (steps : List Step)
    (careful : Along System.step System.Careful System.idle steps) :
    ∀ visited ∈ visits System.step System.idle steps, ¬visited.Overlap :=
  fun visited member =>
    have orderly := visits_invariant System.orderly_step System.orderly_idle careful visited member
    orderly.kept.no_overlap

/-- A start, with nobody in its way. -/
def started : List Step :=
  .request .start :: List.replicate 3 (.run .http false) ++ List.replicate 7 (.run .http true)

/-- A write that stops the trace and waits for its drain, and a start that is refused. -/
def stopThenWrite : List Step :=
  started ++ [.drain true, .request .write] ++ List.replicate 7 (.run .flasher true) ++
    List.replicate 3 (.drain true) ++ List.replicate 14 (.run .flasher true) ++
    [.request .start, .run .http true, .run .flasher true]

theorem no_overlap_of_careful_stopThenWrite :
    (∃ visited ∈ visits System.step System.idle stopThenWrite,
        visited.drain.draining = true ∧ visited.flashActive = true) ∧
      (stopThenWrite.foldl System.step System.idle).session = true ∧
      ∀ visited ∈ visits System.step System.idle stopThenWrite, ¬visited.Overlap :=
  ⟨by decide, by decide, no_overlap_of_careful stopThenWrite (by decide)⟩

/-- The watcher's stop has cleared `s_running`, and its drain is still there. -/
example :
    ∃ visited ∈ visits System.step System.idle
        (started ++ .request .watch :: List.replicate 2 (.run .watcher true) ++
          [.request .write, .run .flasher true, .run .flasher false] ++
          List.replicate 7 (.run .flasher true)),
      visited.Overlap := by
  decide

/-- GDB's load finds the write's session on and makes no stop, and the start that comes
after the write is in time. -/
example :
    ∃ visited ∈ visits System.step System.idle
        (.request .write :: .run .flasher true :: .run .flasher false ::
          List.replicate 2 (.run .flasher true) ++ List.replicate 2 (.run .flasher false) ++
          List.replicate 3 (.run .flasher true) ++ [.request .load, .run .gdb true] ++
          List.replicate 10 (.run .flasher true) ++ started ++
          List.replicate 3 (.run .gdb true)),
      visited.Overlap := by
  decide

/-- The write gives up its wait for a drain that does not leave its loop. -/
example :
    ∃ visited ∈ visits System.step System.idle
        (started ++ [.drain true, .request .write] ++ List.replicate 120 (.run .flasher true)),
      visited.Overlap := by
  decide +kernel

end Exclusion
end TriCoreDap
