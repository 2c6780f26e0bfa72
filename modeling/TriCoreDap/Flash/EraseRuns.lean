import TriCoreDap.Flash.OnImage
import Mathlib.Data.List.Induction

/-!
# The runs of the erase stage

Which commands of a log succeeded, and that those of a successful erase stage cover the
listed sectors, each once and in order.
-/

namespace TriCoreDap
namespace Flash

open Probe

variable {session : FlashSession} {log : List Event} {sector command count : Nat}
  {sectors rest : List Word} {errsr : Word} {command' : Command} {started : Option Command} {succeeded : List Command}

/-! ## The commands that succeeded -/

/-- What a log says of its commands: the one that was started last and not answered
yet, and those that succeeded. -/
structure CommandHistory where
  seen : List Event
  started : Option Command
  succeeded : List Command

/-- An error register without a failure, or one that could not be read. -/
def noErrorRead : Option Word → Bool
  | none => true
  | some word => word &&& errsrFailed == 0

/-- Whether a read of the error register shows no failure. -/
def showsNoError : Event → Option Bool
  | ⟨.read32 addr, errsr⟩ => if addr = dmuHfErrsr then some (noErrorRead errsr) else none
  | _ => none

/-- A command is answered by the next read of the error register. -/
def CommandHistory.after (history : CommandHistory) (event : Event) : CommandHistory :=
  match commandOf history.seen event.1 with
  | some command => ⟨history.seen ++ [event], some command, history.succeeded⟩
  | none =>
      match showsNoError event with
      | none => ⟨history.seen ++ [event], history.started, history.succeeded⟩
      | some true =>
          ⟨history.seen ++ [event], none, history.succeeded ++ history.started.toList⟩
      | some false => ⟨history.seen ++ [event], none, history.succeeded⟩

def commandHistory (log : List Event) : CommandHistory :=
  log.foldl CommandHistory.after ⟨[], none, []⟩

theorem commandHistory_append (log : List Event) (event : Event) :
    commandHistory (log ++ [event]) = (commandHistory log).after event := by
  rw [commandHistory, List.foldl_append]
  rfl

theorem after_seen (history : CommandHistory) (event : Event) :
    (history.after event).seen = history.seen ++ [event] := by
  unfold CommandHistory.after
  split
  · rfl
  · split <;> rfl

theorem commandHistory_seen (log : List Event) : (commandHistory log).seen = log := by
  induction log using List.reverseRecOn with
  | nil => rfl
  | append_singleton log event inductionHypothesis =>
      rw [commandHistory_append, after_seen, inductionHypothesis]

/-- What is known of a log. -/
structure Answered
    (started : Option Command)
    (succeeded : List Command)
    (log : List Event) : Prop where
  started : (commandHistory log).started = started
  succeeded : (commandHistory log).succeeded = succeeded

/-- An operation that starts no command and does not answer one. -/
def Quiet (op : Op) : Prop := Calm op ∧ op ≠ .read32 dmuHfErrsr

theorem Quiet.showsNoError {op : Op} (quiet : Quiet op) (reply : Reply op) :
    showsNoError ⟨op, reply⟩ = none := by
  cases op with
  | read32 addr =>
      have other : addr ≠ dmuHfErrsr := fun same => quiet.2 (congrArg Op.read32 same)
      exact if_neg other
  | _ => rfl

theorem Answered.quiet
    (op : Op)
    (log : List Event)
    (reply : Reply op)
    (log' : List Event)
    (quiet : Quiet op)
    (answered : Answered started succeeded log)
    (step : logging op log reply log') : Answered started succeeded log' := by
  obtain rfl := step
  have same : commandHistory (log ++ [⟨op, reply⟩]) =
      ⟨log ++ [⟨op, reply⟩], (commandHistory log).started, (commandHistory log).succeeded⟩ := by
    rw [commandHistory_append, CommandHistory.after, commandHistory_seen]
    simp only [quiet.1 log, quiet.showsNoError reply]
  exact ⟨by rw [same]; exact answered.started, by rw [same]; exact answered.succeeded⟩

theorem Answered.holds_of_quiet
    {program : Run α}
    (answered : Answered started succeeded log)
    (uses : program.Uses Quiet) :
    program.Holds logging (Answered started succeeded) (fun _ _ => True) log :=
  Program.holds_of_uses Answered.quiet uses answered

theorem quiet_clearStatus : Quiet (.write32 (csiBase + cycle5554) cmdClearStatus) :=
  ⟨calm_clearStatus, nofun⟩

theorem quiet_status : Quiet (.read32 dmuHfStatus) :=
  ⟨calm_of_reading trivial, fun same => absurd (Op.read32.inj same) (by decide)⟩

/-- The read that answers a command. -/
theorem Answered.readErrsr (answered : Answered started succeeded log) (errsr : Option Word) :
    Answered none (if noErrorRead errsr then succeeded ++ started.toList else succeeded)
      (log ++ [⟨.read32 dmuHfErrsr, errsr⟩]) := by
  have calm : Calm (.read32 dmuHfErrsr) := calm_of_reading trivial
  have shown : showsNoError ⟨.read32 dmuHfErrsr, errsr⟩ = some (noErrorRead errsr) := by
    rw [showsNoError, if_pos rfl]
  obtain ⟨rfl, rfl⟩ := answered
  cases noError : noErrorRead errsr <;> constructor <;>
    simp only [commandHistory_append, CommandHistory.after, calm _, shown, noError, if_true,
      Bool.false_eq_true, if_false]

/-- The start of a command. -/
theorem Answered.start
    (answered : Answered started succeeded log)
    (event : Event)
    (starts : commandOf log event.1 = some command') :
    Answered (some command') succeeded (log ++ [event]) := by
  have seen := commandHistory_seen log
  constructor
  · simp only [commandHistory_append, CommandHistory.after, seen, starts]
  · simp only [commandHistory_append, CommandHistory.after, seen, starts]
    exact answered.succeeded

/-- A command that is waited for has succeeded if it is reported so, and else it has not. -/
theorem holds_waitIdle_answered
    (answered : Answered (some command') succeeded log)
    (timeoutMs : Nat) :
    (waitIdle timeoutMs).Holds logging (fun _ => True)
      (fun result log' => (commandHistory log').succeeded =
        if result = .idle then succeeded ++ [command'] else succeeded) log := by
  refine ⟨trivial, fun more log₁ step₁ => ?_⟩
  have answered₁ := Answered.quiet _ _ _ _ ⟨calm_of_reading (reading_deadline timeoutMs), nofun⟩
    answered step₁
  refine ((answered₁.holds_of_quiet (uses_pollIdle quiet_status more)).mono (fun _ _ => trivial)
    fun _ _ answered _ => answered).bind fun isIdle log₂ _ answered₂ => ?_
  cases isIdle with
  | false => exact ⟨trivial, answered₂.succeeded⟩
  | true =>
      refine ⟨trivial, fun errsr log₃ step₃ => ⟨trivial, fun cleared log₄ step₄ => ?_⟩⟩
      obtain rfl := step₃
      have answered₃ := answered₂.readErrsr errsr
      have answered₄ := Answered.quiet _ _ _ _ quiet_clearStatus answered₃ step₄
      have succeeded₄ := answered₄.succeeded
      cases errsr with
      | none => exact ⟨trivial, succeeded₄⟩
      | some word =>
          refine ⟨trivial, succeeded₄.trans ?_⟩
          by_cases noError : word &&& errsrFailed = 0
          · simp [noErrorRead, noError]
          · simp [noErrorRead, noError]

/-! ## One command -/

theorem holds_eraseRangeCycles_answered
    (known : (commandHistory log).succeeded = succeeded) :
    (cycles (eraseRangeSequence command count)).Holds logging (fun _ => True)
      (fun sent log' => (commandHistory log').succeeded = succeeded ∧
        (sent = true →
          (commandHistory log').started = some (.erase (some command) (some count)))) log := by
  rw [cycles_eraseRangeSequence]
  refine holds_writes (fun log => (commandHistory log).succeeded = succeeded) _ _ _ ?_
    (fun _ _ => trivial) (fun _ known => ⟨known, nofun⟩) ?_ known
  · intro pair member log reply log' known step
    have quiet : Quiet (.write32 pair.1 pair.2) := ⟨calm_eraseRangeSetup pair member, nofun⟩
    exact (Answered.quiet _ _ _ _ quiet ⟨rfl, known⟩ step).succeeded
  · intro last reply log' acked known step
    have answered : Answered (commandHistory last).started succeeded last := ⟨rfl, known⟩
    obtain rfl := step
    have started := answered.start ⟨.write32 (csiBase + cycleAAA8) cmdErase, reply⟩
      (commandOf_eraseRangeSetup acked)
    exact ⟨trivial, started.succeeded, fun _ => started.started⟩

/-- What an erase adds to the commands that succeeded: itself, if it is reported so;
nothing, if a sequence error is. -/
theorem holds_eraseRange_answered
    (swapActive : Bool)
    (clean : errsr &&& errsrSqer = 0)
    (known : (commandHistory log).succeeded = succeeded) :
    (eraseRange swapActive sector count errsr).Holds logging (fun _ => True)
      (fun result log' =>
        (result.1 = true → result.2 = errsr ∧ (commandHistory log').succeeded =
          succeeded ++ [.erase (some (commandAddress swapActive sector)) (some count)]) ∧
        (result.1 = false → result.2 &&& errsrSqer ≠ 0 →
          (commandHistory log').succeeded = succeeded)) log := by
  refine (holds_eraseRangeCycles_answered known).bind fun sent log₁ _ facts => ?_
  obtain ⟨known₁, started₁⟩ := facts
  cases sent with
  | false => exact ⟨trivial, nofun, fun _ refused => absurd clean refused⟩
  | true =>
      refine (holds_waitIdle_answered ⟨started₁ rfl, known₁⟩ 5000).bind
        fun waited log₂ _ known₂ => ?_
      cases waited with
      | timeout => exact ⟨trivial, nofun, fun _ refused => absurd clean refused⟩
      | failed latched => exact ⟨trivial, nofun, fun _ _ => known₂⟩
      | idle =>
          refine ⟨trivial, fun cleared log₃ step₃ => ⟨trivial, fun _ => ⟨rfl, ?_⟩,
            fun _ refused => absurd clean refused⟩⟩
          have kept := Answered.quiet _ _ _ _ quiet_clearStatus ⟨rfl, rfl⟩ step₃
          rw [kept.succeeded]
          exact known₂

/-! ## The runs -/

/-- A sector that the layout has, at its own address or at that of its commands. -/
structure LayoutSector (session : FlashSession) (sector : Nat) : Prop where
  aligned : sector % flashSector = 0
  uncached : Uncached sector
  inLayout : ∃ range ∈ session.layout,
    range.Contains sector ∨ range.Contains (session.command sector)

theorem LayoutSector.bounds (inLayout : LayoutSector session sector) :
    0xA0000000 ≤ sector ∧ sector < 0xA0C00000 := by
  obtain ⟨range, member, contains⟩ := inLayout.inLayout
  obtain ⟨-, -, bottom, top⟩ := flashLayout_ranges range member
  simp only [pflashBase, Range.Contains] at bottom contains
  rcases contains with ⟨above, below⟩ | ⟨above, below⟩
  · omega
  · rw [FlashSession.command] at above below
    cases swap : session.swapActive with
    | false =>
        rw [swap, commandAddress_false inLayout.uncached] at above below
        omega
    | true =>
        rw [swap] at above below
        have translated := commandAddress_true inLayout.uncached
        omega

theorem LayoutSector.command_bounds (inLayout : LayoutSector session sector) :
    session.command sector < 0xA0C00000 ∧ session.command sector % flashSector = 0 := by
  have bounds := inLayout.bounds
  have aligned := inLayout.aligned
  rw [FlashSession.command]
  cases session.swapActive with
  | false =>
      rw [commandAddress_false inLayout.uncached]
      exact ⟨bounds.2, aligned⟩
  | true =>
      rw [flashSector] at aligned ⊢
      rcases commandAddress_true inLayout.uncached with low | high | other
      · omega
      · omega
      · omega

/-- The sectors of a run, by the addresses of their commands. -/
def runSectors (run : Nat × Nat) : List Nat :=
  (List.range run.2).map fun index => run.1 + flashSector * index

/-- A run that one command may erase. -/
structure OneRun (run : Nat × Nat) : Prop where
  positive : 1 ≤ run.2
  short : run.2 ≤ eraseRunMax
  inside : ∀ address, run.1 ≤ address → address < run.1 + flashSector * run.2 →
    alignDown address physicalSector = alignDown run.1 physicalSector

/-- A run stays within its limits while it grows. -/
theorem eraseRun_within
    (swapActive : Bool)
    (first run : Nat)
    (rest : List Word)
    (fits : first + eraseRunMax * flashSector ≤ 2 ^ 32)
    (short : run ≤ eraseRunMax)
    (within : ∀ index, index < run →
      alignDown (first + flashSector * index) physicalSector = alignDown first physicalSector) :
    eraseRun swapActive first run rest ≤ eraseRunMax ∧
      ∀ index, index < eraseRun swapActive first run rest →
        alignDown (first + flashSector * index) physicalSector =
          alignDown first physicalSector := by
  induction rest generalizing run with
  | nil => exact ⟨short, within⟩
  | cons sector rest inductionHypothesis =>
      rw [eraseRun]
      split
      · next follows =>
          obtain ⟨less, -, same⟩ := follows
          refine inductionHypothesis (run + 1) less fun index inRun => ?_
          rcases Nat.lt_succ_iff_lt_or_eq.mp inRun with before | rfl
          · exact within index before
          · rw [u32_of_lt, Nat.mul_comm] at same
            · exact same.symm
            · simp only [eraseRunMax, flashSector] at *
              omega
      · exact ⟨short, within⟩

theorem oneRun
    {first run : Nat}
    (aligned : first % flashSector = 0)
    (positive : 1 ≤ run)
    (short : run ≤ eraseRunMax)
    (within : ∀ index, index < run →
      alignDown (first + flashSector * index) physicalSector = alignDown first physicalSector) :
    OneRun (first, run) where
  positive := positive
  short := short
  inside := by
    intro address above below
    -- A physical sector is 64 logical ones.
    have logical (x : Nat) :
        alignDown x physicalSector = x / flashSector / 64 * physicalSector := by
      rw [alignDown, Nat.div_div_eq_div_mul]
      rfl
    have same := within ((address - first) / flashSector) (by
      simp only [flashSector] at *
      omega)
    have here : address / flashSector =
        (first + flashSector * ((address - first) / flashSector)) / flashSector := by
      simp only [flashSector] at aligned ⊢
      omega
    rw [logical, here, ← logical]
    exact same

/-- The run of a round. -/
theorem oneRun_eraseRun
    (inLayout : LayoutSector session sector)
    (multi : Bool)
    (rest : List Word) :
    let run := if multi then
      eraseRun session.swapActive (session.command sector) 1 rest else 1
    Consecutive session (sector :: rest) (session.command sector) run ∧
      OneRun (session.command sector, run) := by
  obtain ⟨below, aligned⟩ := inLayout.command_bounds
  have fits : session.command sector + eraseRunMax * flashSector ≤ 2 ^ 32 := by
    simp only [eraseRunMax, flashSector]
    omega
  have first : ∀ index, index < 1 →
      alignDown (session.command sector + flashSector * index) physicalSector =
        alignDown (session.command sector) physicalSector := by
    intro index inRun
    rw [Nat.lt_one_iff.mp inRun, Nat.mul_zero, Nat.add_zero]
  cases multi with
  | false =>
      have short : 1 ≤ eraseRunMax := by decide
      exact ⟨consecutive_one sector rest, oneRun aligned (Nat.le_refl 1) short first⟩
  | true =>
      have consecutive := consecutive_eraseRun fits rest
      obtain ⟨short, within⟩ :=
        eraseRun_within session.swapActive _ 1 rest fits (by decide) first
      exact ⟨consecutive, oneRun aligned consecutive.positive short within⟩

/-- The sectors of a run are the first ones of the list. -/
theorem Consecutive.runSectors_eq
    (consecutive : Consecutive session sectors command count) :
    runSectors (command, count) = (sectors.take count).map session.command := by
  apply List.ext_getElem
  · simp [runSectors, consecutive.bound]
  · intro index inside inside'
    rw [runSectors, List.length_map, List.length_range] at inside
    obtain ⟨sector, found, command_eq⟩ := consecutive.follows index inside
    obtain ⟨inList, rfl⟩ := List.getElem?_eq_some_iff.mp found
    simp [runSectors, command_eq]

/-! ## The stage -/

/-- `erase_sectors` with `sectors_done`. -/
def eraseSectorsDone
    (swapActive : Bool)
    (state : EraseState)
    (done : Word) : List Word → Run ((FlashResult × EraseState) × Word)
  | [] => .done ((.ok (), state), done)
  | sector :: rest => do
      match ← eraseNext swapActive state sector rest with
      | (some run, state') =>
          eraseSectorsDone swapActive state' (u32 (done + run)) (rest.drop (run - 1))
      | (none, state') => return ((.error (.eraseFailed sector state'.errsr), state'), done)
  termination_by sectors => sectors.length
  decreasing_by
    simp only [List.length_drop, List.length_cons]
    omega

/-- Without the counter it is the erase stage. -/
theorem eraseSectorsDone_fst
    (swapActive : Bool)
    (state : EraseState)
    (done : Word)
    (sectors : List Word) :
    (do return (← eraseSectorsDone swapActive state done sectors).1) =
      eraseSectors swapActive state sectors := by
  match sectors with
  | [] =>
      rw [eraseSectorsDone, eraseSectors]
      rfl
  | sector :: rest =>
      rw [eraseSectorsDone, eraseSectors, Program.bind_assoc]
      congr 1
      funext result
      obtain ⟨_ | run, state'⟩ := result
      · rfl
      · exact eraseSectorsDone_fst swapActive state' _ (rest.drop (run - 1))
  termination_by sectors.length
  decreasing_by
    simp only [List.length_drop, List.length_cons]
    omega

/-- The command that erases a run. -/
def eraseOf (run : Nat × Nat) : Command := .erase (some run.1) (some run.2)

/-- A successful round has one command that succeeded, for the sectors that it counts. -/
theorem holds_eraseNext_answered
    (inLayout : LayoutSector session sector)
    (rest : List Word)
    (state : EraseState)
    (clean : state.errsr &&& errsrSqer = 0)
    (known : (commandHistory log).succeeded = succeeded) :
    (eraseNext session.swapActive state sector rest).Holds logging (fun _ => True)
      (fun result log' => ∀ run, result.1 = some run →
        result.2.errsr &&& errsrSqer = 0 ∧
        (commandHistory log').succeeded =
          succeeded ++ [eraseOf (session.command sector, run)] ∧
        Consecutive session (sector :: rest) (session.command sector) run ∧
        OneRun (session.command sector, run)) log := by
  have together := oneRun_eraseRun inLayout state.multiErase rest
  have one := oneRun_eraseRun inLayout false rest
  unfold eraseNext
  extract_lets run
  refine (holds_eraseRange_answered session.swapActive clean known).bind
    fun result log₁ _ facts => ?_
  obtain ⟨isErased, errsr⟩ := result
  obtain ⟨done, refused⟩ := facts
  cases isErased with
  | true =>
      refine ⟨trivial, fun run' some_eq => ?_⟩
      obtain rfl := Option.some.inj some_eq
      obtain ⟨same, added⟩ := done rfl
      obtain rfl : errsr = state.errsr := same
      exact ⟨clean, added, together⟩
  | false =>
      show Program.Holds _ _ _ (if 1 < run ∧ errsr &&& errsrSqer ≠ 0 then _ else _) _
      split
      · next sequence =>
          have zero : (0 : Word) &&& errsrSqer = 0 := by decide
          refine (holds_eraseRange_answered session.swapActive zero
            (refused rfl sequence.2)).bind fun result log₂ _ facts₂ => ?_
          obtain ⟨isErased, errsr'⟩ := result
          cases isErased with
          | true =>
              refine ⟨trivial, fun run' some_eq => ?_⟩
              obtain rfl := Option.some.inj some_eq
              obtain ⟨same, added⟩ := facts₂.1 rfl
              obtain rfl : errsr' = 0 := same
              exact ⟨zero, added, one⟩
          | false => exact ⟨trivial, fun _ impossible => nomatch impossible⟩
      · exact ⟨trivial, fun _ impossible => nomatch impossible⟩

/-- What a successful stage adds to the commands that succeeded. -/
structure Covered
    (session : FlashSession)
    (sectors : List Word)
    (succeeded succeeded' : List Command)
    (runs : List (Nat × Nat)) : Prop where
  added : succeeded' = succeeded ++ runs.map eraseOf
  exact : runs.flatMap runSectors = sectors.map session.command
  limits : ∀ run ∈ runs, OneRun run

theorem holds_eraseSectorsDone
    {sectors : List Word}
    {succeeded : List Command}
    {log : List Event}
    (inLayout : ∀ sector ∈ sectors, LayoutSector session sector)
    (state : EraseState)
    (clean : state.errsr &&& errsrSqer = 0)
    (known : (commandHistory log).succeeded = succeeded)
    (done : Word)
    (word : done < 2 ^ 32) :
    (eraseSectorsDone session.swapActive state done sectors).Holds logging (fun _ => True)
      (fun result log' => result.1.1 = .ok () →
        (∃ runs, Covered session sectors succeeded (commandHistory log').succeeded runs) ∧
        result.2 = u32 (done + sectors.length)) log := by
  match sectors with
  | [] =>
      rw [eraseSectorsDone]
      refine ⟨trivial, fun _ => ⟨⟨[], ?_, rfl, nofun⟩, (u32_of_lt word).symm⟩⟩
      rw [List.map_nil, List.append_nil, known]
  | sector :: rest =>
      rw [eraseSectorsDone]
      have first := inLayout sector List.mem_cons_self
      refine (holds_eraseNext_answered first rest state clean known).bind
        fun result log₁ _ round => ?_
      obtain ⟨_ | run, state'⟩ := result
      · exact ⟨trivial, nofun⟩
      · obtain ⟨clean', added, consecutive, limits⟩ := round run rfl
        have others : ∀ next ∈ rest.drop (run - 1), LayoutSector session next :=
          fun next member => inLayout next (List.mem_cons_of_mem _ (List.mem_of_mem_drop member))
        refine (holds_eraseSectorsDone others state' clean' added (u32 (done + run))
          (Nat.mod_lt _ (by decide))).mono (fun _ _ => trivial) fun result log₂ _ later ok => ?_
        obtain ⟨⟨runs, covered⟩, counted⟩ := later ok
        obtain ⟨less, rfl⟩ : ∃ less, run = less + 1 :=
          ⟨run - 1, by have := consecutive.positive; omega⟩
        refine ⟨⟨(session.command sector, less + 1) :: runs, ?_, ?_, ?_⟩, ?_⟩
        · rw [covered.added, List.map_cons, List.append_assoc]
          rfl
        · rw [List.flatMap_cons, consecutive.runSectors_eq, covered.exact, ← List.map_append]
          congr 1
          exact List.take_append_drop (less + 1) (sector :: rest)
        · exact List.forall_mem_cons.mpr ⟨limits, covered.limits⟩
        · have bound := consecutive.bound
          rw [List.length_cons] at bound
          rw [counted, u32_add_u32_left, List.length_drop, List.length_cons]
          congr 1
          omega
  termination_by sectors.length
  decreasing_by
    simp only [List.length_drop, List.length_cons]
    omega

/-- The erase stage ends, and when it succeeds, the commands that succeeded cover the
listed sectors, each once and no others, in runs that one command may erase; and
`sectors_done` has grown by their number.  A session starts with no error latched. -/
theorem erase_runs_exact
    (session : FlashSession)
    (sectors : List Word)
    (sorted : sectors.Pairwise (· < ·))
    (inLayout : ∀ sector ∈ sectors, LayoutSector session sector)
    (state : EraseState)
    (clean : state.errsr &&& errsrSqer = 0)
    (done : Word)
    (word : done < 2 ^ 32) :
    (∀ (σ : Type) (answer : (op : Op) → σ → Reply op × σ) (target : σ),
      ∃ fuel result last, Program.runFor answer fuel
        (eraseSectorsDone session.swapActive state done sectors) target = (some result, last)) ∧
    ∀ log result log', result.1.1 = .ok () →
      (eraseSectorsDone session.swapActive state done sectors).Returns logging log result log' →
        ∃ runs : List (Nat × Nat), (commandHistory log').succeeded =
            (commandHistory log).succeeded ++ runs.map eraseOf ∧
          runs.flatMap runSectors = sectors.map session.command ∧
          (sectors.map session.command).Nodup ∧
          (∀ run ∈ runs, OneRun run) ∧
          result.2 = u32 (done + sectors.length) := by
  constructor
  · intro σ answer target
    exact Program.exists_runFor answer _ target
  · intro log result log' ok returns
    obtain ⟨⟨runs, covered⟩, counted⟩ :=
      ((holds_eraseSectorsDone inLayout state clean rfl done word).of_returns returns).2 ok
    refine ⟨runs, covered.added, covered.exact, ?_, covered.limits, counted⟩
    refine List.Nodup.map_on ?_ (sorted.imp Nat.ne_of_lt)
    intro left inLeft right inRight same
    exact commandAddress_injective (inLayout left inLeft).uncached
      (inLayout right inRight).uncached same

/-- The log of the erase of two sectors by one command. -/
def pairLog : List Event :=
  (Program.runFor willing 20 (eraseNext false ⟨true, 0⟩ 0xA0000000 [0xA0004000]) []).2

theorem layoutSector_plain {sector : Nat} (aligned : sector % flashSector = 0)
    (inside : 0xA0000000 ≤ sector ∧ sector < 0xA0A00000) : LayoutSector plainSession sector where
  aligned := aligned
  uncached := uncached_iff.mpr (by omega)
  inLayout := ⟨⟨0xA0000000, 0xA0A00000⟩, List.mem_singleton_self _, Or.inl inside⟩

theorem erase_runs_exact_pair :
    ∃ runs : List (Nat × Nat), (commandHistory pairLog).succeeded = runs.map eraseOf ∧
      runs.flatMap runSectors = [0xA0000000, 0xA0004000] := by
  have inLayout : ∀ sector ∈ ([0xA0000000, 0xA0004000] : List Word),
      LayoutSector plainSession sector := by
    rw [List.forall_mem_cons, List.forall_mem_singleton]
    exact ⟨layoutSector_plain (by decide) (by decide), layoutSector_plain (by decide) (by decide)⟩
  have round : (eraseNext false ⟨true, 0⟩ 0xA0000000 [0xA0004000]).Returns logging []
      (some 2, ⟨true, 0⟩) pairLog :=
    Program.returns_runFor willing (fun _ _ => rfl) 20 (by decide +kernel)
  have returns : (eraseSectorsDone false ⟨true, 0⟩ 0 [0xA0000000, 0xA0004000]).Returns logging []
      ((.ok (), ⟨true, 0⟩), 2) pairLog := by
    rw [eraseSectorsDone]
    refine round.bind ?_
    have ends : (eraseSectorsDone false ⟨true, 0⟩ 2 []).Returns logging pairLog
        ((.ok (), ⟨true, 0⟩), 2) pairLog := by
      rw [eraseSectorsDone]
      exact .done
    exact ends
  obtain ⟨runs, added, covered, -⟩ :=
    (erase_runs_exact plainSession [0xA0000000, 0xA0004000] (by decide) inLayout ⟨true, 0⟩
      (by decide) 0 (by decide)).2 [] _ pairLog rfl returns
  exact ⟨runs, added, covered⟩

end Flash
end TriCoreDap
