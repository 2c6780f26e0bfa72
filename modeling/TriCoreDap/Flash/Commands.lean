import TriCoreDap.Flash.Log
import TriCoreDap.Flash.Sectors

/-!
# The commands of a run over the image

What an erase and a load of pages may cover, and how this is kept while the
stages add to the log: what was erased so far, and what was loaded so far.
-/

namespace TriCoreDap
namespace Flash

open Probe

/-- The error register was read without an error, or could not be read. -/
def NoError (errsr : Option Word) : Prop :=
  ∀ word, errsr = some word → word &&& errsrFailed = 0

/-- An acknowledged erase command covered the address, and after nothing but
reads the error register showed no failure. -/
def ErasedIn (log : List Event) (address : Nat) : Prop :=
  ∃ before middle errsr after command count,
    log = before ++ ⟨.write32 (csiBase + cycleAAA8) cmdErase, true⟩ ::
      (middle ++ ⟨.read32 dmuHfErrsr, errsr⟩ :: after) ∧
    commandOf before (.write32 (csiBase + cycleAAA8) cmdErase) =
      some (.erase (some command) (some count)) ∧
    (∀ event ∈ middle, Reading event.1) ∧ NoError errsr ∧
    command ≤ address ∧ address < command + flashSector * count

/-- The loader was sent to program the page of the address. -/
def Loaded (log : List Event) (address : Nat) : Prop :=
  ∃ addr pages timeoutMs reply,
    (⟨.runLoader .program addr pages timeoutMs, reply⟩ : Event) ∈ log ∧
      addr ≤ address ∧ address < addr + flashPage * pages

/-- Every sector of the range is the one that commands take for a touched
sector, and all of it is populated. -/
def ErasesTouched
    (session : FlashSession)
    (regions : List FlashRegion)
    (command count : Nat) : Prop :=
  ∀ index, index < count → ∃ sector, sector % flashSector = 0 ∧ Uncached sector ∧
    (∃ region ∈ regions, Touches region sector) ∧
      ∀ offset, offset < flashSector →
        session.command (sector + offset) = command + flashSector * index + offset ∧
          Populated session.layout (command + flashSector * index + offset)

/-- The pages loaded are the ones that commands take for consecutive pages of a
region, in sectors erased before, none of them loaded before. -/
structure LoadsPages
    (session : FlashSession)
    (before : List Event)
    (region : FlashRegion)
    (first addr pages : Nat) : Prop where
  aligned : first % flashPage = 0
  start : region.address ≤ first
  inRegion : ∀ index, index < pages →
    first + flashPage * index < region.address + region.length
  command : ∀ offset, offset < flashPage * pages →
    session.command (first + offset) = addr + offset
  populated : ∀ offset, offset < flashPage * pages →
    Populated session.layout (addr + offset)
  erased : ∀ offset, offset < flashPage * pages → ErasedIn before (addr + offset)
  once : ∀ offset, offset < flashPage * pages → ¬Loaded before (addr + offset)

/-- The commands that may be issued after what was done before. -/
def Permitted
    (session : FlashSession)
    (regions : List FlashRegion)
    (before : List Event) : Command → Prop
  | .erase addr count =>
      ∃ command sectors, addr = some command ∧ count = some sectors ∧
        ErasesTouched session regions command sectors
  | .program _ => False
  | .load addr pages =>
      ∃ region ∈ regions, ∃ first, LoadsPages session before region first addr pages

/-- The log so far: only permitted commands, at least `erased` erased, at most
`loaded` loaded. -/
structure Guarded
    (session : FlashSession)
    (regions : List FlashRegion)
    (erased loaded : Nat → Prop)
    (log : List Event) : Prop where
  logged : Logged (Permitted session regions) log
  erasedIn : ∀ address, erased address → ErasedIn log address
  loadedIn : ∀ address, Loaded log address → loaded address

variable {session : FlashSession} {regions : List FlashRegion}
  {erased loaded : Nat → Prop} {log : List Event}

theorem ErasedIn.append
    (erasedIn : ErasedIn log address) (event : Event) :
    ErasedIn (log ++ [event]) address := by
  obtain ⟨before, middle, errsr, after, command, count, rfl, facts⟩ := erasedIn
  exact ⟨before, middle, errsr, after ++ [event], command, count, by simp, facts⟩

theorem loaded_append_calm
    (event : Event)
    (calm : Calm event.1) :
    Loaded (log ++ [event]) address ↔ Loaded log address := by
  constructor
  · rintro ⟨addr, pages, timeoutMs, reply, member, covers⟩
    rcases List.mem_append.mp member with member | same
    · exact ⟨addr, pages, timeoutMs, reply, member, covers⟩
    · obtain rfl := List.mem_singleton.mp same
      exact absurd (calm []) (by simp [commandOf])
  · rintro ⟨addr, pages, timeoutMs, reply, member, covers⟩
    exact ⟨addr, pages, timeoutMs, reply, List.mem_append_left _ member, covers⟩

/-- Any event that starts no load keeps the guard, if its command is permitted. -/
theorem Guarded.append
    (guarded : Guarded session regions erased loaded log)
    (event : Event)
    (allowed : ∀ command, commandOf log event.1 = some command →
      Permitted session regions log command)
    (loads : ∀ address, Loaded (log ++ [event]) address → Loaded log address) :
    Guarded session regions erased loaded (log ++ [event]) where
  logged := guarded.logged.append event allowed
  erasedIn address inErased := (guarded.erasedIn address inErased).append event
  loadedIn address inLoaded := guarded.loadedIn address (loads address inLoaded)

theorem Guarded.calm
    (op : Op)
    (log : List Event)
    (reply : Reply op)
    (log' : List Event)
    (calm : Calm op)
    (guarded : Guarded session regions erased loaded log)
    (step : logging op log reply log') : Guarded session regions erased loaded log' := by
  obtain rfl := step
  refine guarded.append _ (fun command some_eq => ?_) fun _ => (loaded_append_calm _ calm).mp
  rw [calm log] at some_eq
  exact nomatch some_eq

theorem Guarded.holds_of_calm
    {program : Run α}
    (guarded : Guarded session regions erased loaded log)
    (uses : program.Uses Calm) :
    program.Holds logging (Guarded session regions erased loaded) (fun _ _ => True) log :=
  Program.holds_of_uses Guarded.calm uses guarded

theorem Guarded.mono
    {erased' loaded' : Nat → Prop}
    (guarded : Guarded session regions erased loaded log)
    (fewer : ∀ address, erased' address → erased address)
    (more : ∀ address, loaded address → loaded' address) :
    Guarded session regions erased' loaded' log where
  logged := guarded.logged
  erasedIn address inErased := guarded.erasedIn address (fewer address inErased)
  loadedIn address inLoaded := more address (guarded.loadedIn address inLoaded)

/-! ## Waiting for a command -/

theorem holds_pollIdle_log
    (guarded : Guarded session regions erased loaded log)
    (more : Nat) :
    (pollIdle more).Holds logging (Guarded session regions erased loaded)
      (fun _ log' => ∃ middle : List Event, log' = log ++ middle ∧
        ∀ event ∈ middle, Reading event.1) log := by
  have reading : ∀ reply, Reading (⟨.read32 dmuHfStatus, reply⟩ : Event).1 :=
    fun _ => reading_read32 _
  induction more generalizing log with
  | zero =>
      refine ⟨guarded, fun reply log' step => ⟨?_, [⟨.read32 dmuHfStatus, reply⟩], step, ?_⟩⟩
      · exact Guarded.calm _ _ _ _ (calm_of_reading (reading reply)) guarded step
      · exact List.forall_mem_singleton.mpr (reading reply)
  | succ more inductionHypothesis =>
      refine ⟨guarded, fun reply log' step => ?_⟩
      have guarded' := Guarded.calm _ _ _ _ (calm_of_reading (reading reply)) guarded step
      obtain rfl := step
      show Program.Holds _ _ _ (if statusIdle reply then _ else pollIdle more) _
      split
      · exact ⟨guarded', [⟨.read32 dmuHfStatus, reply⟩], rfl,
          List.forall_mem_singleton.mpr (reading reply)⟩
      · refine (inductionHypothesis guarded').mono (fun _ => id) ?_
        rintro _ log' - ⟨middle, rfl, readings⟩
        refine ⟨⟨.read32 dmuHfStatus, reply⟩ :: middle, by simp, ?_⟩
        exact List.forall_mem_cons.mpr ⟨reading reply, readings⟩

/-- What was read when a command is reported as successful. -/
theorem holds_waitIdle_log
    (guarded : Guarded session regions erased loaded log)
    (timeoutMs : Nat) :
    (waitIdle timeoutMs).Holds logging (Guarded session regions erased loaded)
      (fun result log' => result = .idle → ∃ middle errsr cleared,
        log' = log ++ (middle ++ [⟨.read32 dmuHfErrsr, errsr⟩, cleared]) ∧
          (∀ event ∈ middle, Reading event.1) ∧ NoError errsr) log := by
  refine ⟨guarded, fun more log₁ step₁ => ?_⟩
  have guarded₁ := Guarded.calm _ _ _ _ (calm_of_reading (reading_deadline timeoutMs))
    guarded step₁
  refine (holds_pollIdle_log guarded₁ more).bind fun isIdle log₂ guarded₂ polled => ?_
  obtain ⟨middle, rfl, readings⟩ := polled
  cases isIdle with
  | false => exact ⟨guarded₂, fun timeout => nomatch timeout⟩
  | true =>
      refine ⟨guarded₂, fun errsr log₃ step₃ => ?_⟩
      have guarded₃ := Guarded.calm _ _ _ _ (calm_of_reading (reading_read32 _)) guarded₂ step₃
      refine ⟨guarded₃, fun cleared log₄ step₄ => ?_⟩
      have guarded₄ := Guarded.calm _ _ _ _ calm_clearStatus guarded₃ step₄
      have done (noError : NoError errsr) : ∃ middle errsr cleared,
          log₄ = log ++ (middle ++ [⟨.read32 dmuHfErrsr, errsr⟩, cleared]) ∧
            (∀ event ∈ middle, Reading event.1) ∧ NoError errsr := by
        refine ⟨⟨.deadline timeoutMs, more⟩ :: middle, errsr,
          ⟨.write32 (csiBase + cycle5554) cmdClearStatus, cleared⟩, ?_, ?_, noError⟩
        · rw [step₄, step₃, step₁]
          simp
        · exact List.forall_mem_cons.mpr ⟨reading_deadline timeoutMs, readings⟩
      cases errsr with
      | none => exact ⟨guarded₄, fun _ => done fun word some_eq => nomatch some_eq⟩
      | some word =>
          refine ⟨guarded₄, fun reported => done fun word' some_eq => ?_⟩
          obtain rfl := Option.some.inj some_eq
          split at reported
          · next noError => exact noError
          · exact nomatch reported

end Flash
end TriCoreDap
