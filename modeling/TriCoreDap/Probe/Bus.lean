import TriCoreDap.Library.Program
import TriCoreDap.Library.Word

/-!
# The probe's operations on the target

Everything the flash and UCB code does to the target goes through the
operations below.  A read may fail, a write may fail with or without effect, and
how many polls fit before a deadline is not known: the target answers each
operation, and the code is a program over these answers.
-/

namespace TriCoreDap
namespace Probe

/-- `esp_err_t`, as far as the flash and UCB code returns it. -/
inductive EspErr
  | ok
  | fail
  | invalidArg
  | timeout
  deriving DecidableEq, Repr

/-- The commands of the RAM loader. -/
inductive LoaderCmd
  | program
  | checksum
  deriving DecidableEq, Repr

/-- An operation on the target. -/
inductive Op
  | read32 (addr : Word)
  | write32 (addr value : Word)
  | clearErrorState
  | deadline (timeoutMs : Nat)
  | writeBlock (addr : Word) (data : List Byte)
  | runLoader (cmd : LoaderCmd) (addr count timeoutMs : Nat)
  deriving DecidableEq

/-- The answers: a word or a failure, success or failure, how many more polls a
deadline leaves room for, and the loader's checksum or a failure. -/
@[reducible] def Reply : Op → Type
  | .read32 _ => Option Word
  | .write32 _ _ => Bool
  | .clearErrorState => Unit
  | .deadline _ => Nat
  | .writeBlock _ _ => Bool
  | .runLoader _ _ _ _ => Option Word

instance : (op : Op) → DecidableEq (Reply op)
  | .read32 _ => inferInstanceAs (DecidableEq (Option Word))
  | .write32 _ _ => inferInstanceAs (DecidableEq Bool)
  | .clearErrorState => inferInstanceAs (DecidableEq Unit)
  | .deadline _ => inferInstanceAs (DecidableEq Nat)
  | .writeBlock _ _ => inferInstanceAs (DecidableEq Bool)
  | .runLoader _ _ _ _ => inferInstanceAs (DecidableEq (Option Word))

abbrev Run (α : Type) := Program Op Reply α

def read32 (addr : Word) : Run (Option Word) :=
  Program.perform (Op.read32 addr)

def write32 (addr value : Word) : Run Bool :=
  Program.perform (Op.write32 addr value)

def clearErrorState : Run Unit :=
  Program.perform Op.clearErrorState

/-- Write words until one write fails. -/
def writes : List (Word × Word) → Run Bool
  | [] => .done true
  | (addr, value) :: rest => do
      if ← write32 addr value then writes rest else return false

/-- The loop of `tricore_read_mem`, `fuel` bounding its rounds. -/
def readMem : (fuel addr len : Nat) → Run (Option (List Byte))
  | 0, _, _ => .done (some [])
  | fuel + 1, addr, len =>
      if len = 0 then .done (some [])
      else do
        let wordAddr := addr / 4 * 4
        let skip := addr - wordAddr
        let take := min (4 - skip) len
        match ← read32 wordAddr with
        | none =>
            clearErrorState
            return none
        | some word =>
            match ← readMem fuel (u32 (addr + take)) (len - take) with
            | none => return none
            | some rest =>
                return some ((List.range take).map (fun i => byteOf word (skip + i)) ++ rest)

/-- `tricore_read_mem`: each round reads at least one byte. -/
def tricoreReadMem (addr len : Nat) : Run (Option (List Byte)) :=
  readMem len addr len

def coreBase : Nat := 0xF8810000
def offDbgsr : Nat := 0xFD00
def dbgsrHaltShift : Nat := 1

/-- The attempts of `tricore_dbgsr` on core 0. -/
def dbgsrAttempts : (attempts : Nat) → Run (Option Word)
  | 0 => .done none
  | attempts + 1 => do
      match ← read32 (coreBase + offDbgsr) with
      | some dbgsr => return some dbgsr
      | none =>
          clearErrorState
          dbgsrAttempts attempts

/-- `tricore_is_halted(0)`, `present` saying whether core 0 was discovered. -/
def tricoreIsHalted (present : Bool) : Run Bool :=
  if !present then .done false
  else do
    match ← dbgsrAttempts 3 with
    | none => return false
    | some dbgsr => return (dbgsr >>> dbgsrHaltShift) &&& 1 != 0

/-! ## The log of a run -/

/-- An operation and its answer. -/
abbrev Event := Sigma Reply

/-- The target may answer anything; its state is the log of what was done. -/
def logging : Device Op Reply (List Event) :=
  fun op log reply log' => log' = log ++ [⟨op, reply⟩]

/-- The events of reading the words from `addr` on. -/
def readEvents (addr : Nat) : List Word → List Event
  | [] => []
  | word :: rest => ⟨.read32 addr, some word⟩ :: readEvents (addr + 4) rest

/-- Operations without effect on the target's flash. -/
def Reading : Op → Prop
  | .read32 _ => True
  | .clearErrorState => True
  | .deadline _ => True
  | _ => False

theorem reading_read32 (addr : Word) : Reading (.read32 addr) := trivial

theorem reading_deadline (timeoutMs : Nat) : Reading (.deadline timeoutMs) := trivial

theorem uses_dbgsrAttempts
    {allowed : Op → Prop}
    (reads : allowed (.read32 (coreBase + offDbgsr)))
    (clears : allowed .clearErrorState)
    (attempts : Nat) :
    (dbgsrAttempts attempts).Uses allowed := by
  induction attempts with
  | zero => trivial
  | succ attempts inductionHypothesis =>
      refine ⟨reads, fun reply => ?_⟩
      cases reply with
      | none => exact ⟨clears, fun _ => inductionHypothesis⟩
      | some dbgsr => trivial

/-- Whether the core is halted is found by reading its status. -/
theorem uses_tricoreIsHalted_of
    {allowed : Op → Prop}
    (reads : allowed (.read32 (coreBase + offDbgsr)))
    (clears : allowed .clearErrorState)
    (present : Bool) :
    (tricoreIsHalted present).Uses allowed := by
  cases present with
  | false => trivial
  | true =>
      refine Program.uses_bind (uses_dbgsrAttempts reads clears 3) fun result => ?_
      cases result <;> trivial

theorem uses_tricoreIsHalted (present : Bool) :
    (tricoreIsHalted present).Uses Reading :=
  uses_tricoreIsHalted_of trivial trivial present

theorem uses_writes
    {allowed : Op → Prop}
    (allows : ∀ pair ∈ pairs, allowed (.write32 pair.1 pair.2)) :
    (writes pairs).Uses allowed := by
  induction pairs with
  | nil => trivial
  | cons pair rest inductionHypothesis =>
      refine ⟨allows pair List.mem_cons_self, fun acknowledged => ?_⟩
      cases acknowledged with
      | false => trivial
      | true =>
          exact inductionHypothesis fun next member =>
            allows next (List.mem_cons_of_mem pair member)

theorem uses_readMem (fuel addr len : Nat) : (readMem fuel addr len).Uses Reading := by
  induction fuel generalizing addr len with
  | zero => trivial
  | succ fuel inductionHypothesis =>
      rw [readMem]
      split
      · trivial
      · refine ⟨trivial, fun reply => ?_⟩
        cases reply with
        | none => exact ⟨trivial, fun _ => trivial⟩
        | some word =>
            show (readMem fuel _ _ >>= _).Uses Reading
            refine Program.uses_bind (inductionHypothesis _ _) fun rest => ?_
            cases rest <;> trivial

/-- One aligned word of `tricore_read_mem`. -/
theorem readMem_word
    (aligned : addr % 4 = 0)
    (whole : 4 ≤ len) :
    readMem (fuel + 1) addr len =
      Program.call (Op.read32 addr) fun
        | none => Program.call Op.clearErrorState fun _ => .done none
        | some word =>
            readMem fuel (u32 (addr + 4)) (len - 4) >>= fun
              | none => .done none
              | some rest => .done (some (wordBytes word ++ rest)) := by
  have nonempty : len ≠ 0 := by omega
  have wordAddr : addr / 4 * 4 = addr := by omega
  have take : min (4 - 0) len = 4 := by omega
  rw [readMem, if_neg nonempty]
  simp only [wordAddr, Nat.sub_self, take, Nat.zero_add]
  refine congrArg (Program.call (Op.read32 addr)) (funext fun reply => ?_)
  cases reply with
  | none => rfl
  | some word =>
      refine congrArg (readMem fuel (u32 (addr + 4)) (len - 4) >>= ·)
        (funext fun rest => ?_)
      cases rest <;> rfl

/-- Reading whole words logs their reads and gives their bytes. -/
theorem holds_readMem
    {device : Device Op Reply σ}
    {inv : σ → Prop}
    (log : σ → List Event)
    (logs : ∀ op state reply state', device op state reply state' →
      log state' = log state ++ [⟨op, reply⟩])
    (keeps : ∀ op state reply state', Reading op → inv state →
      device op state reply state' → inv state')
    (words fuel addr : Nat)
    (aligned : addr % 4 = 0)
    (inRange : addr + 4 * words ≤ 2 ^ 32)
    (enough : words ≤ fuel)
    (start : inv state) :
    (readMem fuel addr (4 * words)).Holds device inv
      (fun result state' => ∀ bytes, result = some bytes →
        ∃ values : List Word, values.length = words ∧
          bytes = values.flatMap wordBytes ∧
            log state' = log state ++ readEvents addr values) state := by
  induction words generalizing fuel addr state with
  | zero =>
      have ended : readMem fuel addr (4 * 0) = .done (some []) := by
        cases fuel <;> simp [readMem]
      rw [ended]
      refine ⟨start, fun bytes bytes_eq => ⟨[], rfl, ?_, ?_⟩⟩
      · exact (Option.some.inj bytes_eq).symm
      · simp [readEvents]
  | succ words inductionHypothesis =>
      obtain ⟨fuel, rfl⟩ : ∃ rest, fuel = rest + 1 := ⟨fuel - 1, by omega⟩
      rw [readMem_word aligned (by omega)]
      refine ⟨start, fun reply state' step => ?_⟩
      have kept := keeps (.read32 addr) _ _ _ trivial start step
      have logged := logs _ _ _ _ step
      cases reply with
      | none =>
          exact ⟨kept, fun _ state'' cleared =>
            ⟨keeps .clearErrorState _ _ _ trivial kept cleared, fun bytes none_eq => nomatch none_eq⟩⟩
      | some word =>
          rw [show 4 * (words + 1) - 4 = 4 * words by omega]
          have next : 0 < words → u32 (addr + 4) = addr + 4 := fun more =>
            u32_of_lt (by omega)
          refine Program.holds_seq
            (fun result last => ∀ bytes, result = some bytes →
              ∃ values : List Word, values.length = words ∧
                bytes = values.flatMap wordBytes ∧
                  log last = log state' ++ readEvents (addr + 4) values) ?_ ?_
          · rcases Nat.eq_zero_or_pos words with none | more
            · subst none
              have ended : readMem fuel (u32 (addr + 4)) (4 * 0) = .done (some []) := by
                cases fuel <;> simp [readMem]
              rw [ended]
              refine ⟨kept, fun bytes bytes_eq => ⟨[], rfl, ?_, ?_⟩⟩
              · exact (Option.some.inj bytes_eq).symm
              · simp [readEvents]
            · rw [next more]
              exact inductionHypothesis fuel (addr + 4) (by omega) (by omega)
                (by omega) kept
          · intro result last lastInv found
            cases result with
            | none => exact ⟨lastInv, fun bytes none_eq => nomatch none_eq⟩
            | some rest =>
                obtain ⟨values, length_eq, rest_eq, log_eq⟩ := found rest rfl
                refine ⟨lastInv, fun bytes bytes_eq => ⟨word :: values, ?_, ?_, ?_⟩⟩
                · simp [length_eq]
                · rw [← Option.some.inj bytes_eq, rest_eq, List.flatMap_cons]
                · rw [log_eq, logged, readEvents, List.append_assoc,
                    List.singleton_append]

end Probe
end TriCoreDap
