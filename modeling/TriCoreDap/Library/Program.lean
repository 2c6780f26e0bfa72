import Mathlib.Tactic.Ring

/-!
# Programs that talk to a device

A program is a tree of operations, each answered by a device that may answer in
more than one way.  `Reaches` says which device states a run can be in when it
is cut off at any point, `Returns` how a run can end.  `Holds` is the weakest
precondition for both: an invariant at every operation and a postcondition at
the end.
-/

namespace TriCoreDap

/-- A program that performs operations `Op`, each with its type of answers. -/
inductive Program (Op : Type) (Reply : Op → Type) (α : Type) : Type
  | done (result : α)
  | call (op : Op) (next : Reply op → Program Op Reply α)

/-- How a device may answer an operation, and the state it is in afterwards. -/
abbrev Device (Op : Type) (Reply : Op → Type) (σ : Type) :=
  (op : Op) → σ → Reply op → σ → Prop

namespace Program

variable {Op : Type} {Reply : Op → Type} {α β σ : Type}

def bind : Program Op Reply α → (α → Program Op Reply β) → Program Op Reply β
  | done result, next => next result
  | call op rest, next => call op fun reply => (rest reply).bind next

instance : Monad (Program Op Reply) where
  pure := done
  bind := bind

/-- One operation. -/
def perform (op : Op) : Program Op Reply (Reply op) :=
  call op done

@[simp] theorem pure_eq (result : α) :
    (pure result : Program Op Reply α) = done result := rfl

@[simp] theorem done_bind
    (result : α) (next : α → Program Op Reply β) :
    (done result : Program Op Reply α) >>= next = next result := rfl

@[simp] theorem call_bind
    (op : Op)
    (rest : Reply op → Program Op Reply α)
    (next : α → Program Op Reply β) :
    call op rest >>= next = call op fun reply => rest reply >>= next := rfl

@[simp] theorem perform_bind
    (op : Op) (next : Reply op → Program Op Reply β) :
    (perform op : Program Op Reply (Reply op)) >>= next = call op next := rfl

theorem bind_assoc
    {γ : Type}
    (program : Program Op Reply α)
    (next : α → Program Op Reply β)
    (last : β → Program Op Reply γ) :
    program >>= next >>= last = program >>= fun result => next result >>= last := by
  induction program with
  | done result => rfl
  | call op rest inductionHypothesis =>
      simp only [call_bind]
      congr 1
      funext reply
      exact inductionHypothesis reply

/-- The states in which a run can be cut off. -/
inductive Reaches (device : Device Op Reply σ) :
    Program Op Reply α → σ → σ → Prop
  | here : Reaches device program state state
  | step :
      device op state reply state' →
      Reaches device (next reply) state' last →
      Reaches device (call op next) state last

/-- The results and states with which a run can end. -/
inductive Returns (device : Device Op Reply σ) :
    Program Op Reply α → σ → α → σ → Prop
  | done : Returns device (done result) state result state
  | step :
      device op state reply state' →
      Returns device (next reply) state' result last →
      Returns device (call op next) state result last

/-- `inv` holds whenever the program is about to perform an operation and at its
end, where `post` holds of its result as well. -/
def Holds
    (device : Device Op Reply σ)
    (inv : σ → Prop)
    (post : α → σ → Prop) : Program Op Reply α → σ → Prop
  | done result, state => inv state ∧ post result state
  | call op next, state =>
      inv state ∧ ∀ reply state', device op state reply state' →
        Holds device inv post (next reply) state'

variable {device : Device Op Reply σ} {inv : σ → Prop}
  {post : α → σ → Prop} {program : Program Op Reply α}
  {state last : σ} {result : α}

theorem Holds.invariant
    (holds : Holds device inv post program state) : inv state := by
  cases program with
  | done result => exact holds.1
  | call op next => exact holds.1

@[simp] theorem holds_done :
    Holds device inv post (done result) state ↔ inv state ∧ post result state :=
  Iff.rfl

theorem holds_call
    {op : Op} {next : Reply op → Program Op Reply α} :
    Holds device inv post (call op next) state ↔
      inv state ∧ ∀ reply state', device op state reply state' →
        Holds device inv post (next reply) state' :=
  Iff.rfl

/-- The rule of composition. -/
theorem holds_bind
    {post : β → σ → Prop}
    {next : α → Program Op Reply β} :
    Holds device inv post (program >>= next) state ↔
      Holds device inv (fun result state => Holds device inv post (next result) state)
        program state := by
  induction program generalizing state with
  | done result =>
      simp only [done_bind, holds_done]
      exact ⟨fun holds => ⟨holds.invariant, holds⟩, fun holds => holds.2⟩
  | call op rest inductionHypothesis =>
      simp only [call_bind, holds_call, inductionHypothesis]

/-- The rule of consequence. -/
theorem Holds.mono
    {inv' : σ → Prop} {post' : α → σ → Prop}
    (holds : Holds device inv post program state)
    (invMono : ∀ state, inv state → inv' state)
    (postMono : ∀ result state, inv state → post result state → post' result state) :
    Holds device inv' post' program state := by
  induction program generalizing state with
  | done result => exact ⟨invMono _ holds.1, postMono _ _ holds.1 holds.2⟩
  | call op next inductionHypothesis =>
      exact ⟨invMono _ holds.1, fun reply state' step =>
        inductionHypothesis reply (holds.2 reply state' step)⟩

/-- The rule of composition with an intermediate assertion. -/
theorem holds_seq
    (mid : α → σ → Prop)
    {post : β → σ → Prop}
    {next : α → Program Op Reply β}
    (first : Holds device inv mid program state)
    (rest : ∀ result state, inv state → mid result state →
      Holds device inv post (next result) state) :
    Holds device inv post (program >>= next) state := by
  rw [holds_bind]
  exact first.mono (fun _ => id) rest

/-- Composition of a specification of the first part with one of the rest. -/
theorem Holds.bind
    {mid : α → σ → Prop} {post : β → σ → Prop}
    {next : α → Program Op Reply β}
    (first : Holds device inv mid program state)
    (rest : ∀ result state, inv state → mid result state →
      Holds device inv post (next result) state) :
    Holds device inv post (program >>= next) state :=
  holds_seq mid first rest

/-- A relation that every answer of the device keeps holds between the first
state and all later ones. -/
theorem holds_of_steps
    {related : σ → Prop}
    (steps : ∀ op state reply state', related state →
      device op state reply state' → related state')
    (program : Program Op Reply α)
    (start : related state) :
    Holds device related (fun _ _ => True) program state := by
  induction program generalizing state with
  | done result => exact ⟨start, trivial⟩
  | call op next inductionHypothesis =>
      exact ⟨start, fun reply state' step =>
        inductionHypothesis reply (steps op state reply state' start step)⟩

/-- The program performs allowed operations only. -/
def Uses (allowed : Op → Prop) : Program Op Reply α → Prop
  | done _ => True
  | call op next => allowed op ∧ ∀ reply, Uses allowed (next reply)

theorem uses_bind
    {allowed : Op → Prop}
    {next : α → Program Op Reply β}
    (first : Uses allowed program)
    (rest : ∀ result, Uses allowed (next result)) :
    Uses allowed (program >>= next) := by
  induction program with
  | done result => exact rest result
  | call op tail inductionHypothesis =>
      exact ⟨first.1, fun reply => inductionHypothesis reply (first.2 reply)⟩

theorem Uses.mono
    {allowed allowed' : Op → Prop}
    (uses : Uses allowed program)
    (weaken : ∀ op, allowed op → allowed' op) : Uses allowed' program := by
  induction program with
  | done result => trivial
  | call op next inductionHypothesis =>
      exact ⟨weaken op uses.1, fun reply => inductionHypothesis reply (uses.2 reply)⟩

/-- What the allowed operations keep, a program that uses no others keeps. -/
theorem holds_of_uses
    {allowed : Op → Prop}
    (keeps : ∀ op state reply state', allowed op → inv state →
      device op state reply state' → inv state')
    (uses : Uses allowed program)
    (start : inv state) :
    Holds device inv (fun _ _ => True) program state := by
  induction program generalizing state with
  | done result => exact ⟨start, trivial⟩
  | call op next inductionHypothesis =>
      exact ⟨start, fun reply state' step =>
        inductionHypothesis reply (uses.2 reply)
          (keeps op state reply state' uses.1 start step)⟩

/-- The invariant holds wherever a run is cut off. -/
theorem Holds.of_reaches
    (holds : Holds device inv post program state)
    (reaches : Reaches device program state last) : inv last := by
  induction reaches with
  | here => exact holds.invariant
  | step answer _ inductionHypothesis =>
      exact inductionHypothesis (holds.2 _ _ answer)

/-- The postcondition holds wherever a run ends. -/
theorem Holds.of_returns
    (holds : Holds device inv post program state)
    (returns : Returns device program state result last) :
    inv last ∧ post result last := by
  induction returns with
  | done => exact holds
  | step answer _ inductionHypothesis =>
      exact inductionHypothesis (holds.2 _ _ answer)

/-- A run that is cut off in the first part. -/
theorem Reaches.bind
    {next : α → Program Op Reply β}
    (first : Reaches device program state last) :
    Reaches device (program >>= next) state last := by
  induction first with
  | here => exact .here
  | step answer _ inductionHypothesis => exact .step answer inductionHypothesis

/-- A run of the first part followed by a cut-off run of the rest. -/
theorem Returns.reaches_bind
    {next : α → Program Op Reply β}
    (first : Returns device program state result mid)
    (rest : Reaches device (next result) mid last) :
    Reaches device (program >>= next) state last := by
  induction first with
  | done => exact rest
  | step answer _ inductionHypothesis => exact .step answer (inductionHypothesis rest)

/-- A run of the first part followed by a run of the rest. -/
theorem Returns.bind
    {next : α → Program Op Reply β}
    {value : β}
    (first : Returns device program state result mid)
    (rest : Returns device (next result) mid value last) :
    Returns device (program >>= next) state value last := by
  induction first with
  | done => exact rest
  | step answer _ inductionHypothesis => exact .step answer (inductionHypothesis rest)

theorem eq_of_returns_done
    {value : α}
    (returns : Returns device (done result) state value last) :
    value = result ∧ last = state := by
  cases returns
  exact ⟨rfl, rfl⟩

/-- A run of two parts is a run of the first and one of the second. -/
theorem exists_returns_of_bind
    {next : α → Program Op Reply β}
    {value : β}
    (returns : Returns device (program >>= next) state value last) :
    ∃ result mid, Returns device program state result mid ∧
      Returns device (next result) mid value last := by
  induction program generalizing state with
  | done result => exact ⟨result, state, .done, returns⟩
  | call op rest inductionHypothesis =>
      cases returns with
      | step answer returns =>
          obtain ⟨result, mid, first, second⟩ := inductionHypothesis _ returns
          exact ⟨result, mid, .step answer first, second⟩

/-- Where a run ends it can be cut off. -/
theorem Returns.reaches
    (returns : Returns device program state result last) :
    Reaches device program state last := by
  induction returns with
  | done => exact .here
  | step answer _ inductionHypothesis => exact .step answer inductionHypothesis

/-- A run against a device that does no more than another is a run against it. -/
theorem Returns.map
    {σ' : Type}
    {device' : Device Op Reply σ'}
    (view : σ → σ')
    (simulates : ∀ op state reply state', device op state reply state' →
      device' op (view state) reply (view state'))
    (returns : Returns device program state result last) :
    Returns device' program (view state) result (view last) := by
  induction returns with
  | done => exact .done
  | step answer _ inductionHypothesis =>
      exact .step (simulates _ _ _ _ answer) inductionHypothesis

/-- A run against a device with one answer, for at most `fuel` operations. -/
def runFor
    (answer : (op : Op) → σ → Reply op × σ) :
    Nat → Program Op Reply α → σ → Option α × σ
  | _, done result, state => (some result, state)
  | 0, call _ _, state => (none, state)
  | fuel + 1, call op next, state =>
      runFor answer fuel (next (answer op state).1) (answer op state).2

/-- However its operations are answered, a program ends. -/
theorem exists_runFor
    (answer : (op : Op) → σ → Reply op × σ)
    (program : Program Op Reply α)
    (state : σ) :
    ∃ fuel result last, runFor answer fuel program state = (some result, last) := by
  induction program generalizing state with
  | done result => exact ⟨0, result, state, rfl⟩
  | call op next inductionHypothesis =>
      obtain ⟨fuel, result, last, ends⟩ :=
        inductionHypothesis (answer op state).1 (answer op state).2
      exact ⟨fuel + 1, result, last, ends⟩

/-- Where a run for some operations stops, a run can be cut off. -/
theorem reaches_runFor
    (answer : (op : Op) → σ → Reply op × σ)
    (sound : ∀ op state, device op state (answer op state).1 (answer op state).2)
    (fuel : Nat)
    (program : Program Op Reply α)
    (state : σ) :
    Reaches device program state (runFor answer fuel program state).2 := by
  induction fuel generalizing program state with
  | zero => cases program <;> exact .here
  | succ fuel inductionHypothesis =>
      cases program with
      | done result => exact .here
      | call op next => exact .step (sound op state) (inductionHypothesis _ _)

/-- A run that finishes within its operations returns. -/
theorem returns_runFor
    (answer : (op : Op) → σ → Reply op × σ)
    (sound : ∀ op state, device op state (answer op state).1 (answer op state).2)
    (fuel : Nat)
    (finished : runFor answer fuel program state = (some result, last)) :
    Returns device program state result last := by
  induction fuel generalizing program state with
  | zero =>
      cases program with
      | done value =>
          obtain ⟨rfl, rfl⟩ := by simpa [runFor] using finished
          exact .done
      | call op next => simp [runFor] at finished
  | succ fuel inductionHypothesis =>
      cases program with
      | done value =>
          obtain ⟨rfl, rfl⟩ := by simpa [runFor] using finished
          exact .done
      | call op next => exact .step (sound op state) (inductionHypothesis finished)

end Program
end TriCoreDap
