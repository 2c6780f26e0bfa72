import TriCoreDap.Flash.Commands

/-!
# The erase stage

Every erase command covers sectors of the list, and when the stage succeeds all
of them were erased.
-/

namespace TriCoreDap
namespace Flash

open Probe

variable {session : FlashSession} {regions : List FlashRegion}
  {erased loaded : Nat → Prop} {log : List Event} {sector command count : Nat}
  {sectors rest : List Word}

/-- The range of an erase command, or an address erased before. -/
def OrCovered (erased : Nat → Prop) (command count address : Nat) : Prop :=
  erased address ∨ command ≤ address ∧ address < command + flashSector * count

/-- The cycles before the erase command. -/
def eraseRangeSetup (command count : Nat) : List (Nat × Nat) :=
  [ (csiBase + cycle5554, cmdClearStatus), (csiBase + cycleAA50, command),
    (csiBase + cycleAA58, count), (csiBase + cycleAAA8, cmdEraseSetup) ]

theorem cycles_eraseRangeSequence (command count : Nat) :
    cycles (eraseRangeSequence command count) =
      writes (eraseRangeSetup command count ++ [(csiBase + cycleAAA8, cmdErase)]) := rfl

theorem calm_eraseRangeSetup :
    ∀ pair ∈ eraseRangeSetup command count, Calm (.write32 pair.1 pair.2) := by
  intro pair member
  simp only [eraseRangeSetup, List.mem_cons, List.not_mem_nil, or_false] at member
  rcases member with rfl | rfl | rfl | rfl
  · exact calm_offset _ (by decide)
  · exact calm_offset _ (by decide)
  · exact calm_offset _ (by decide)
  · exact calm_cycle _ _ (Or.inr (by decide))

theorem commandOf_eraseRangeSetup
    (acked : Acked logging (eraseRangeSetup command count) log last) :
    commandOf last (.write32 (csiBase + cycleAAA8) cmdErase) =
      some (.erase (some command) (some count)) := by
  obtain ⟨_, rfl, _, rfl, _, rfl, _, rfl, rfl⟩ := acked
  rw [commandOf_erase, latched_append_other _ (by decide), latched_append_other _ (by decide),
    latched_append_write, latched_append_other _ (by decide), latched_append_write]

/-- An acknowledged erase command is the last thing in the log. -/
def Commanded (command count : Nat) (log : List Event) : Prop :=
  ∃ before, log = before ++ [⟨.write32 (csiBase + cycleAAA8) cmdErase, true⟩] ∧
    commandOf before (.write32 (csiBase + cycleAAA8) cmdErase) =
      some (.erase (some command) (some count))

theorem holds_eraseRangeCycles
    (touched : ErasesTouched session regions command count)
    (guarded : Guarded session regions erased loaded log) :
    (cycles (eraseRangeSequence command count)).Holds logging
      (Guarded session regions erased loaded)
      (fun sent log' => sent = true → Commanded command count log') log := by
  rw [cycles_eraseRangeSequence]
  refine holds_writes (Guarded session regions erased loaded) _ _ _ ?_ (fun _ => id)
    (fun _ _ impossible => nomatch impossible) ?_ guarded
  · intro pair member _ _ _ guarded step
    exact Guarded.calm _ _ _ _ (calm_eraseRangeSetup pair member) guarded step
  · intro last reply log' acked guarded step
    have erases := commandOf_eraseRangeSetup acked
    obtain rfl := step
    constructor
    · refine guarded.append _ (fun command' some_eq => ?_) fun address covered => ?_
      · obtain rfl := Option.some.inj (erases.symm.trans some_eq)
        exact ⟨command, count, rfl, rfl, touched⟩
      · obtain ⟨addr, pages, timeoutMs, reply', member, covers⟩ := covered
        rcases List.mem_append.mp member with member | same
        · exact ⟨addr, pages, timeoutMs, reply', member, covers⟩
        · exact absurd (congrArg Sigma.fst (List.mem_singleton.mp same)) (by simp)
    · rintro rfl
      exact ⟨last, rfl, erases⟩

/-- An erase that reports success has erased its range. -/
theorem holds_eraseRange
    (touched : ErasesTouched session regions (session.command sector) count)
    (guarded : Guarded session regions erased loaded log)
    (errsr : Word) :
    (eraseRange session.swapActive sector count errsr).Holds logging
      (Guarded session regions erased loaded)
      (fun result log' => result.1 = true → Guarded session regions
        (OrCovered erased (session.command sector) count) loaded log') log := by
  refine (holds_eraseRangeCycles touched guarded).bind fun sent log₁ guarded₁ commanded => ?_
  cases sent with
  | false => exact ⟨guarded₁, fun impossible => nomatch impossible⟩
  | true =>
      obtain ⟨before, rfl, erases⟩ := commanded rfl
      refine (holds_waitIdle_log guarded₁ 5000).bind fun waited log₂ guarded₂ reads => ?_
      cases waited with
      | timeout => exact ⟨guarded₂, fun impossible => nomatch impossible⟩
      | failed latched => exact ⟨guarded₂, fun impossible => nomatch impossible⟩
      | idle =>
          obtain ⟨middle, errsr', cleared, rfl, readings, noError⟩ := reads rfl
          have erasedIn : ∀ address, OrCovered erased (session.command sector) count address →
              ErasedIn (before ++ [⟨.write32 (csiBase + cycleAAA8) cmdErase, true⟩] ++
                (middle ++ [⟨.read32 dmuHfErrsr, errsr'⟩, cleared])) address := by
            rintro address (already | covered)
            · exact guarded₂.erasedIn address already
            · exact ⟨before, middle, errsr', [cleared], session.command sector, count,
                by simp, erases, readings, noError, covered⟩
          have guarded₃ : Guarded session regions
              (OrCovered erased (session.command sector) count) loaded _ :=
            ⟨guarded₂.logged, erasedIn, guarded₂.loadedIn⟩
          refine ((guarded₃.holds_of_calm uses_clearStatus).mono
            (fun _ guarded => guarded.mono (fun _ => Or.inl) fun _ => id)
              fun _ _ guarded _ => guarded).bind fun cleared' log₄ guarded₄ covered => ?_
          exact ⟨guarded₄, fun _ => covered⟩

/-! ## Runs of sectors -/

/-- The sectors of a run follow each other as the commands take them. -/
theorem eraseRun_spec
    (swapActive : Bool)
    (first run : Nat)
    (rest : List Word)
    (fits : first + eraseRunMax * flashSector ≤ 2 ^ 32) :
    ∃ more, eraseRun swapActive first run rest = run + more ∧ more ≤ rest.length ∧
      ∀ index, index < more → ∃ sector, rest[index]? = some sector ∧
        commandAddress swapActive sector = first + flashSector * (run + index) := by
  induction rest generalizing run with
  | nil => exact ⟨0, rfl, Nat.le_refl _, fun index impossible => absurd impossible (by omega)⟩
  | cons sector rest inductionHypothesis =>
      rw [eraseRun]
      split
      · next follows =>
          obtain ⟨more, run_eq, bound, sectors⟩ := inductionHypothesis (run + 1)
          refine ⟨more + 1, by omega, by simpa using bound, fun index inRun => ?_⟩
          cases index with
          | zero =>
              refine ⟨sector, rfl, ?_⟩
              rw [follows.2.1, u32_of_lt]
              · rw [Nat.mul_comm, Nat.add_zero]
              · have := follows.1
                simp only [eraseRunMax, flashSector] at *
                omega
          | succ index =>
              obtain ⟨next, next_eq, command_eq⟩ := sectors index (by omega)
              exact ⟨next, next_eq, by rw [command_eq, Nat.add_assoc, Nat.add_comm 1]⟩
      · exact ⟨0, rfl, Nat.zero_le _, fun index impossible => absurd impossible (by omega)⟩

/-- Sectors that may be erased together. -/
structure Consecutive
    (session : FlashSession)
    (sectors : List Word)
    (command run : Nat) : Prop where
  positive : 1 ≤ run
  bound : run ≤ sectors.length
  follows : ∀ index, index < run → ∃ sector, sectors[index]? = some sector ∧
    session.command sector = command + flashSector * index

theorem consecutive_one (sector : Word) (rest : List Word) :
    Consecutive session (sector :: rest) (session.command sector) 1 where
  positive := Nat.le_refl _
  bound := Nat.succ_le_succ (Nat.zero_le _)
  follows index inRun := by
    obtain rfl : index = 0 := by omega
    exact ⟨sector, rfl, rfl⟩

theorem consecutive_eraseRun
    (fits : session.command sector + eraseRunMax * flashSector ≤ 2 ^ 32)
    (rest : List Word) :
    Consecutive session (sector :: rest) (session.command sector)
      (eraseRun session.swapActive (session.command sector) 1 rest) := by
  obtain ⟨more, run_eq, bound, sectors⟩ := eraseRun_spec session.swapActive _ 1 rest fits
  rw [run_eq]
  constructor
  · omega
  · simp only [List.length_cons]
    omega
  · intro index inRun
    cases index with
    | zero => exact ⟨sector, rfl, rfl⟩
    | succ index =>
        obtain ⟨next, next_eq, command_eq⟩ := sectors index (by omega)
        exact ⟨next, next_eq, by rw [Nat.add_comm index 1]; exact command_eq⟩

/-- A run of accepted sectors may be erased. -/
theorem Consecutive.erasesTouched
    (consecutive : Consecutive session sectors command run)
    (accepted : Accepted session regions sectors) :
    ErasesTouched session regions command run := by
  intro index inRun
  obtain ⟨sector, found, command_eq⟩ := consecutive.follows index inRun
  have member := List.mem_of_getElem? found
  have programmable := accepted.programmable sector member
  refine ⟨sector, programmable.aligned, programmable.uncached, accepted.touched sector member, ?_⟩
  intro offset inSector
  rw [← command_eq]
  exact ⟨programmable.commandAddress_add inSector,
    programmable.populated_add inSector⟩

/-- The address is one of the sector's, as the commands take it. -/
def InSector (session : FlashSession) (sector address : Nat) : Prop :=
  session.command sector ≤ address ∧ address < session.command sector + flashSector

theorem Consecutive.covers
    (consecutive : Consecutive session sectors command run)
    (member : sector ∈ sectors.take run)
    (inSector : InSector session sector address) :
    command ≤ address ∧ address < command + flashSector * run := by
  obtain ⟨index, found⟩ := List.mem_iff_getElem?.mp member
  rw [List.getElem?_take] at found
  split at found
  · next inRun =>
      obtain ⟨sector', found', command_eq⟩ := consecutive.follows index inRun
      obtain rfl := Option.some.inj (found.symm.trans found')
      obtain ⟨above, below⟩ := inSector
      simp only [flashSector] at *
      omega
  · cases found

theorem Accepted.sublist
    {sectors' : List Word}
    (accepted : Accepted session regions sectors)
    (sublist : sectors'.Sublist sectors) : Accepted session regions sectors' where
  ascending := accepted.ascending.sublist sublist
  programmable sector member := accepted.programmable sector (sublist.subset member)
  touched sector member := accepted.touched sector (sublist.subset member)

/-- What a round of the erase stage says it has erased. -/
def RoundErased
    (session : FlashSession)
    (regions : List FlashRegion)
    (erased loaded : Nat → Prop)
    (sector : Word)
    (rest : List Word)
    (result : Option Nat)
    (log : List Event) : Prop :=
  ∀ run, result = some run →
    Consecutive session (sector :: rest) (session.command sector) run ∧
      Guarded session regions (OrCovered erased (session.command sector) run) loaded log

/-- One round of the erase stage. -/
theorem holds_eraseNext
    (accepted : Accepted session regions (sector :: rest))
    (guarded : Guarded session regions erased loaded log)
    (state : EraseState) :
    (eraseNext session.swapActive state sector rest).Holds logging
      (Guarded session regions erased loaded)
      (fun result log' =>
        RoundErased session regions erased loaded sector rest result.1 log') log := by
  have programmable := accepted.programmable sector List.mem_cons_self
  have one : Consecutive session (sector :: rest) (session.command sector) 1 :=
    consecutive_one sector rest
  have bounds : session.command sector < 0xA0A00000 := programmable.bounds.2
  have fits : session.command sector + eraseRunMax * flashSector ≤ 2 ^ 32 := by
    simp only [eraseRunMax, flashSector]
    omega
  unfold eraseNext
  extract_lets run
  have together : Consecutive session (sector :: rest) (session.command sector) run := by
    cases multi : state.multiErase with
    | true => simpa [run, multi, FlashSession.command] using
        consecutive_eraseRun fits rest
    | false => simpa [run, multi] using one
  refine (holds_eraseRange (together.erasesTouched accepted) guarded state.errsr).bind
    fun result log₁ guarded₁ erased₁ => ?_
  obtain ⟨isErased, errsr⟩ := result
  cases isErased with
  | true =>
      refine ⟨guarded₁, fun run' some_eq => ?_⟩
      obtain rfl := Option.some.inj some_eq
      exact ⟨together, erased₁ rfl⟩
  | false =>
      show Program.Holds _ _ _ (if 1 < run ∧ errsr &&& errsrSqer ≠ 0 then _ else _) _
      split
      · refine (holds_eraseRange (one.erasesTouched accepted) guarded₁ 0).bind
          fun result log₂ guarded₂ erased₂ => ?_
        obtain ⟨isErased, errsr'⟩ := result
        cases isErased with
        | true =>
            refine ⟨guarded₂, fun run' some_eq => ?_⟩
            obtain rfl := Option.some.inj some_eq
            exact ⟨one, erased₂ rfl⟩
        | false => exact ⟨guarded₂, fun _ impossible => by cases impossible⟩
      · exact ⟨guarded₁, fun _ impossible => by cases impossible⟩

/-- The erase stage: when it succeeds all of its sectors were erased. -/
theorem holds_eraseSectors
    {sectors : List Word}
    {erased : Nat → Prop}
    {log : List Event}
    (accepted : Accepted session regions sectors)
    (guarded : Guarded session regions erased loaded log)
    (state : EraseState) :
    (eraseSectors session.swapActive state sectors).Holds logging
      (Guarded session regions erased loaded)
      (fun result log' => result.1 = .ok () → Guarded session regions
        (fun address => erased address ∨ ∃ sector ∈ sectors, InSector session sector address)
          loaded log') log := by
  match sectors with
  | [] =>
      rw [eraseSectors]
      refine ⟨guarded, fun _ => guarded.mono ?_ fun _ => id⟩
      rintro address (already | ⟨sector, none, -⟩)
      · exact already
      · exact absurd none List.not_mem_nil
  | sector :: rest =>
      rw [eraseSectors]
      refine (holds_eraseNext accepted guarded state).bind fun result log₁ guarded₁ round => ?_
      obtain ⟨_ | run, state'⟩ := result
      · exact ⟨guarded₁, by simp⟩
      · obtain ⟨consecutive, covered⟩ := round run rfl
        have others : Accepted session regions (rest.drop (run - 1)) :=
          accepted.sublist ((List.drop_sublist _ _).cons _)
        refine ((holds_eraseSectors others covered state').mono
          (fun _ guarded => guarded.mono (fun _ => Or.inl) fun _ => id)
            fun result log₂ _ erases ok => ?_)
        refine (erases ok).mono ?_ fun _ => id
        rintro address (already | ⟨next, member, inSector⟩)
        · exact Or.inl (Or.inl already)
        · have split := List.take_append_drop run (sector :: rest)
          rw [← split] at member
          rcases List.mem_append.mp member with first | later
          · exact Or.inl (Or.inr (consecutive.covers first inSector))
          · have positive := consecutive.positive
            obtain ⟨less, rfl⟩ : ∃ less, run = less + 1 := ⟨run - 1, by omega⟩
            exact Or.inr ⟨next, later, inSector⟩
  termination_by sectors.length
  decreasing_by
    simp only [List.length_drop, List.length_cons]
    omega

end Flash
end TriCoreDap
