import TriCoreDap.Debug.Breakpoints

/-!
# Runs of requests

What a set and a clear do to the contents, and what holds along a run.
-/

namespace TriCoreDap
namespace Debug

variable {debugger : Debugger} {contents : Nat → Content} {wanted : Wanted} {bw : Breakwatch}
  {slot addr word : Nat} {triggers : Triggers} {outcomes : Nat → WriteOutcome}

/-! ## Register writes -/

@[simp] theorem Triggers.writeEvt_adr (triggers : Triggers) (outcome : WriteOutcome) (slot value : Nat) :
    (triggers.writeEvt outcome slot value).adr = triggers.adr := by
  unfold writeEvt
  split_ifs <;> rfl

@[simp] theorem Triggers.writeAdr_evt (triggers : Triggers) (outcome : WriteOutcome) (slot value : Nat) :
    (triggers.writeAdr outcome slot value).evt = triggers.evt := by
  unfold writeAdr
  split_ifs <;> rfl

theorem Triggers.writeEvt_evt
    {outcome : WriteOutcome}
    (applied : outcome.isApplied = true)
    (triggers : Triggers)
    (slot value : Nat) :
    (triggers.writeEvt outcome slot value).evt = Function.update triggers.evt slot value := by
  rw [writeEvt, if_pos applied]

theorem Triggers.writeAdr_adr
    {outcome : WriteOutcome}
    (applied : outcome.isApplied = true)
    (triggers : Triggers)
    (slot value : Nat) :
    (triggers.writeAdr outcome slot value).adr = Function.update triggers.adr slot value := by
  rw [writeAdr, if_pos applied]

/-- A write of what is there changes nothing. -/
theorem Triggers.writeEvt_same (same : triggers.evt slot = value) (outcome : WriteOutcome) :
    (triggers.writeEvt outcome slot value).evt = triggers.evt := by
  unfold writeEvt
  split_ifs
  · rw [← same]
    exact Function.update_eq_self slot triggers.evt
  · rfl

/-- A write leaves the other addresses as they are. -/
theorem Triggers.writeAdr_other
    {other : Nat}
    (different : other ≠ slot)
    (triggers : Triggers)
    (outcome : WriteOutcome)
    (value : Nat) : (triggers.writeAdr outcome slot value).adr other = triggers.adr other := by
  unfold writeAdr
  split_ifs
  · exact Function.update_of_ne different value triggers.adr
  · rfl

theorem WriteOutcome.applied_of_ok {outcome : WriteOutcome} (ok : outcome.isOk = true) :
    outcome.isApplied = true := by
  cases outcome with
  | ok => rfl
  | failed applied => cases ok

/-- A write that fails and was not done changes nothing. -/
theorem Triggers.writeEvt_failed
    {outcome : WriteOutcome}
    (failed : outcome.isOk = false)
    (notDone : outcome ≠ .failed true)
    (triggers : Triggers)
    (slot value : Nat) : triggers.writeEvt outcome slot value = triggers := by
  cases outcome with
  | ok => cases failed
  | failed applied =>
      cases applied with
      | true => exact absurd rfl notDone
      | false => rfl

/-! ## Setting a trigger -/

/-- A trigger of one slot: the address, and if that went well the event. -/
def Triggers.setSingle
    (triggers : Triggers)
    (outcomes : Nat → WriteOutcome)
    (slot addr word : Nat) : Bool × Triggers :=
  let triggers := triggers.writeAdr (outcomes 0) slot addr
  if !(outcomes 0).isOk then (false, triggers)
  else ((outcomes 1).isOk, triggers.writeEvt (outcomes 1) slot word)

/-- A trigger of a pair: both addresses, then the events. -/
def Triggers.setPair
    (triggers : Triggers)
    (outcomes : Nat → WriteOutcome)
    (slot addr stop word : Nat) : Bool × Triggers :=
  let triggers := triggers.writeAdr (outcomes 0) slot addr
  let triggers := triggers.writeAdr (outcomes 1) (slot + 1) stop
  let triggers := triggers.writeEvt (outcomes 2) (slot + 1) 0
  ((outcomes 3).isOk, triggers.writeEvt (outcomes 3) slot word)

theorem Triggers.setSingle_ok (ok : (triggers.setSingle outcomes slot addr word).1 = true) :
    (triggers.setSingle outcomes slot addr word).2.evt =
        Function.update triggers.evt slot word ∧
      (triggers.setSingle outcomes slot addr word).2.adr =
        Function.update triggers.adr slot addr := by
  unfold setSingle at ok ⊢
  cases first : (outcomes 0).isOk with
  | false => simp [first] at ok
  | true =>
      have second : (outcomes 1).isOk = true := by simpa [first] using ok
      simp only [Bool.not_true, Bool.false_eq_true, if_false]
      rw [writeEvt_evt (WriteOutcome.applied_of_ok second), writeEvt_adr, writeAdr_evt,
        writeAdr_adr (WriteOutcome.applied_of_ok first)]
      exact ⟨rfl, rfl⟩

theorem Triggers.setSingle_failed
    (failed : (triggers.setSingle outcomes slot addr word).1 = false)
    (settles : outcomes 0 = .ok → outcomes 1 ≠ .failed true) :
    (triggers.setSingle outcomes slot addr word).2.evt = triggers.evt ∧
      ∀ other, other ≠ slot →
        (triggers.setSingle outcomes slot addr word).2.adr other = triggers.adr other := by
  unfold setSingle at failed ⊢
  cases first : (outcomes 0).isOk with
  | false =>
      simp only [Bool.not_false, if_true, writeAdr_evt, true_and]
      exact fun other different => writeAdr_other different _ _ _
  | true =>
      have isOk : outcomes 0 = .ok := by
        cases outcome : outcomes 0 with
        | ok => rfl
        | failed applied =>
            rw [outcome] at first
            cases first
      have second : (outcomes 1).isOk = false := by simpa [first] using failed
      simp only [Bool.not_true, Bool.false_eq_true, if_false]
      rw [writeEvt_failed second (settles isOk), writeAdr_evt]
      exact ⟨rfl, fun other different => writeAdr_other different _ _ _⟩

theorem Triggers.setPair_ok
    (ok : (triggers.setPair outcomes slot addr stop word).1 = true)
    (settles : (outcomes 0).isApplied = true ∧ (outcomes 1).isApplied = true)
    (upperFree : triggers.evt (slot + 1) = 0) :
    (triggers.setPair outcomes slot addr stop word).2.evt =
        Function.update (Function.update triggers.evt slot word) (slot + 1) 0 ∧
      (triggers.setPair outcomes slot addr stop word).2.adr =
        Function.update (Function.update triggers.adr slot addr) (slot + 1) stop := by
  have applied := WriteOutcome.applied_of_ok ok
  unfold setPair
  dsimp only
  rw [writeEvt_evt applied, writeEvt_adr, writeEvt_adr, writeAdr_adr settles.2,
    writeAdr_adr settles.1, writeEvt_same (by simpa using upperFree), writeAdr_evt, writeAdr_evt]
  constructor
  · have upper : Function.update triggers.evt slot word (slot + 1) = 0 := by
      rw [Function.update_of_ne (Nat.succ_ne_self slot), upperFree]
    symm
    exact Function.update_eq_iff.mpr ⟨upper.symm, fun _ _ => rfl⟩
  · rfl

theorem Triggers.setPair_failed
    (failed : (triggers.setPair outcomes slot addr stop word).1 = false)
    (settles : outcomes 3 ≠ .failed true)
    (upperFree : triggers.evt (slot + 1) = 0) :
    (triggers.setPair outcomes slot addr stop word).2.evt = triggers.evt ∧
      ∀ other, other ≠ slot → other ≠ slot + 1 →
        (triggers.setPair outcomes slot addr stop word).2.adr other = triggers.adr other := by
  have last : (outcomes 3).isOk = false := failed
  unfold setPair
  dsimp only
  rw [writeEvt_failed last settles]
  constructor
  · rw [writeEvt_same (by simpa using upperFree), writeAdr_evt, writeAdr_evt]
  · intro other different above
    rw [writeEvt_adr, writeAdr_other above, writeAdr_other different]

/-- The trigger of a request is set. -/
def Wanted.setTrigger
    (wanted : Wanted)
    (triggers : Triggers)
    (outcomes : Nat → WriteOutcome)
    (slot : Nat) : Bool × Triggers :=
  match wanted with
  | code addr => triggers.setCodeTrigger outcomes slot addr
  | data addr size onRead onWrite =>
      triggers.setDataTrigger outcomes slot addr size onRead onWrite

/-- A request is set in one slot or in a pair, or refused for its size. -/
theorem Breakwatch.setTrigger_cases
    (asked : bw.wanted = some wanted)
    (inside : slot < numTriggers)
    (pair : wanted.ranged = true → slot % 2 = 0 ∧ slot + 1 < numTriggers)
    (triggers : Triggers)
    (outcomes : Nat → WriteOutcome) :
    wanted.setTrigger triggers outcomes slot = (false, triggers) ∨
      (wanted.BelowTop → wanted.Valid) ∧
        (wanted.ranged = false ∧ wanted.setTrigger triggers outcomes slot =
            triggers.setSingle outcomes slot wanted.addr wanted.word ∨
          wanted.ranged = true ∧ wanted.setTrigger triggers outcomes slot =
            triggers.setPair outcomes slot wanted.addr wanted.stop wanted.word) := by
  have fits : ¬slot ≥ numTriggers := Nat.not_le.mpr inside
  cases wanted with
  | code addr =>
      right
      refine ⟨fun _ => True.intro, Or.inl ⟨rfl, ?_⟩⟩
      simp only [Wanted.setTrigger, Triggers.setCodeTrigger, fits, if_false]
      rfl
  | data addr size onRead onWrite =>
      have watched : (!onRead && !onWrite) = false := by
        unfold Breakwatch.wanted at asked
        split at asked <;> cases asked <;> rfl
      by_cases none : size < 1
      · left
        simp only [Wanted.setTrigger, Triggers.setDataTrigger, fits, none, true_or, if_true,
          if_false]
      · right
        refine ⟨fun below => ⟨by omega, below⟩, ?_⟩
        by_cases one : size = 1
        · left
          refine ⟨by simp [Wanted.ranged, one], ?_⟩
          simp only [Wanted.setTrigger, Triggers.setDataTrigger, fits, one, watched, if_false,
            if_true, Nat.lt_irrefl, Bool.false_eq_true, or_self]
          rfl
        · have wide : size > 1 := by omega
          obtain ⟨even, room⟩ := pair (decide_eq_true wide)
          have placed : ¬(slot % 2 ≠ 0 ∨ slot + 1 ≥ numTriggers) := by omega
          right
          refine ⟨decide_eq_true wide, ?_⟩
          simp only [Wanted.setTrigger, Triggers.setDataTrigger, fits, none, one, watched, placed,
            if_false, Bool.false_eq_true, or_self, Triggers.setPair, Wanted.word, wide,
            decide_true]
          rfl

theorem Wanted.place_single
    {α : Type}
    (single : wanted.ranged = false)
    (slot : Nat)
    (here upper : α)
    (contents : Nat → α) :
    wanted.place slot here upper contents = Function.update contents slot here := by
  funext other
  simp [place, single, Function.update_apply]

theorem Wanted.place_pair
    {α : Type}
    (ranged : wanted.ranged = true)
    (slot : Nat)
    (here upper : α)
    (contents : Nat → α) :
    wanted.place slot here upper contents =
      Function.update (Function.update contents slot here) (slot + 1) upper := by
  funext other
  simp only [place, ranged, true_and, Function.update_apply]
  by_cases next : other = slot + 1
  · simp [next]
  · simp [next]

/-- What a set leaves of the registers. -/
theorem Breakwatch.setTrigger_spec
    (asked : bw.wanted = some wanted)
    (inside : slot < numTriggers)
    (pair : wanted.ranged = true →
      slot % 2 = 0 ∧ slot + 1 < numTriggers ∧ triggers.evt (slot + 1) = 0)
    (settles : wanted.Settles outcomes) :
    ((wanted.setTrigger triggers outcomes slot).1 = true ∧
        (wanted.BelowTop → wanted.Valid) ∧
          (wanted.setTrigger triggers outcomes slot).2.evt =
            wanted.place slot wanted.word 0 triggers.evt ∧
          (wanted.setTrigger triggers outcomes slot).2.adr =
            wanted.place slot wanted.addr wanted.stop triggers.adr) ∨
      (wanted.setTrigger triggers outcomes slot).1 = false ∧
        (wanted.setTrigger triggers outcomes slot).2.evt = triggers.evt ∧
          ∀ other, other ≠ slot → ¬(wanted.ranged = true ∧ other = slot + 1) →
            (wanted.setTrigger triggers outcomes slot).2.adr other = triggers.adr other := by
  have room : wanted.ranged = true → slot % 2 = 0 ∧ slot + 1 < numTriggers :=
    fun ranged => ⟨(pair ranged).1, (pair ranged).2.1⟩
  unfold Wanted.Settles at settles
  rcases Breakwatch.setTrigger_cases asked inside room triggers outcomes with
    refused | ⟨valid, ⟨single, applied⟩ | ⟨ranged, applied⟩⟩
  · right
    rw [refused]
    exact ⟨rfl, rfl, fun _ _ _ => rfl⟩
  · rw [applied]
    simp only [single, Bool.false_eq_true, if_false] at settles
    cases ok : (triggers.setSingle outcomes slot wanted.addr wanted.word).1 with
    | true =>
        left
        rw [Wanted.place_single single, Wanted.place_single single]
        exact ⟨rfl, valid, Triggers.setSingle_ok ok⟩
    | false =>
        right
        obtain ⟨evt, adr⟩ := Triggers.setSingle_failed ok settles
        exact ⟨rfl, evt, fun other different _ => adr other different⟩
  · rw [applied]
    simp only [ranged, if_true] at settles
    have upperFree := (pair ranged).2.2
    cases ok : (triggers.setPair outcomes slot wanted.addr wanted.stop wanted.word).1 with
    | true =>
        left
        have isOk : outcomes 3 = .ok := by
          cases outcome : outcomes 3 with
          | ok => rfl
          | failed applied =>
              have notOk : (outcomes 3).isOk = true := ok
              rw [outcome] at notOk
              cases notOk
        rw [Wanted.place_pair ranged, Wanted.place_pair ranged]
        exact ⟨rfl, valid, Triggers.setPair_ok ok (settles.2 isOk) upperFree⟩
    | false =>
        right
        obtain ⟨evt, adr⟩ := Triggers.setPair_failed ok settles.1 upperFree
        exact ⟨rfl, evt, fun other different above => adr other different fun next =>
          above ⟨ranged, next⟩⟩

/-! ## Sets -/

/-- The slot that a request is put in. -/
def Debugger.freeFor (debugger : Debugger) (wanted : Wanted) : Option Nat :=
  if wanted.ranged then debugger.freePair else debugger.freeSlot

/-- What a set does. -/
theorem Debugger.breakwatchSet_eq
    (debugger : Debugger)
    (asked : bw.wanted = some wanted)
    (outcomes : Nat → WriteOutcome) :
    (debugger.breakwatchSet outcomes bw).2 =
      match debugger.slotOfAddr wanted.addr with
      | some _ => { debugger with live := wanted :: debugger.live }
      | none =>
          match debugger.freeFor wanted with
          | none => debugger
          | some slot =>
              let result := wanted.setTrigger debugger.triggers outcomes slot
              if result.1 then
                { table := wanted.place slot wanted.entry wanted.upper debugger.table
                  triggers := result.2
                  live := wanted :: debugger.live }
              else { debugger with triggers := result.2 } := by
  cases wanted with
  | code addr =>
      simp only [breakwatchSet, asked, bpAdd, Wanted.addr, freeFor, Wanted.ranged, Wanted.setTrigger]
      cases debugger.slotOfAddr addr with
      | some existing => rfl
      | none =>
          simp only [Bool.false_eq_true, if_false]
          cases debugger.freeSlot with
          | none => rfl
          | some slot =>
              dsimp only
              have single : (Wanted.code addr).ranged = false := rfl
              rw [Wanted.place_single single]
              by_cases ok : (debugger.triggers.setCodeTrigger outcomes slot addr).1 = true
              · simp [ok, Wanted.entry]
              · simp [ok]
  | data addr size onRead onWrite =>
      simp only [breakwatchSet, asked, bpAddWatch, Wanted.addr, freeFor, Wanted.ranged,
        Wanted.setTrigger, decide_eq_true_eq]
      cases debugger.slotOfAddr addr with
      | some existing => rfl
      | none =>
          dsimp only
          cases (if size > 1 then debugger.freePair else debugger.freeSlot) with
          | none => rfl
          | some slot =>
              dsimp only
              by_cases ok :
                  (debugger.triggers.setDataTrigger outcomes slot addr size onRead onWrite).1 = true
              · by_cases wide : size > 1
                · have ranged : (Wanted.data addr size onRead onWrite).ranged = true :=
                    decide_eq_true wide
                  rw [Wanted.place_pair ranged]
                  simp [ok, wide, Wanted.entry, Wanted.upper, Wanted.stop]
                · have single : (Wanted.data addr size onRead onWrite).ranged = false :=
                    decide_eq_false wide
                  rw [Wanted.place_single single]
                  simp [ok, wide, Wanted.entry]
              · simp [ok]

theorem Breakwatch.wanted_addr (asked : bw.wanted = some wanted) : wanted.addr = u32 bw.addr := by
  unfold Breakwatch.wanted at asked
  split at asked <;> cases asked <;> rfl

theorem Tabled.freeFor_some
    (tabled : Tabled debugger contents)
    (found : debugger.freeFor wanted = some slot) :
    slot < numTriggers ∧ contents slot = .free ∧
      (wanted.ranged = true →
        slot % 2 = 0 ∧ slot + 1 < numTriggers ∧ contents (slot + 1) = .free) := by
  unfold Debugger.freeFor at found
  cases ranged : wanted.ranged with
  | false =>
      rw [ranged] at found
      obtain ⟨inside, free⟩ := Debugger.freeSlot_some found
      exact ⟨inside, tabled.content_free inside free, nofun⟩
  | true =>
      rw [ranged] at found
      obtain ⟨room, even, free, upperFree⟩ := Debugger.freePair_some found
      have inside : slot < numTriggers := Nat.lt_of_succ_lt room
      exact ⟨inside, tabled.content_free inside free,
        fun _ => ⟨even, room, tabled.content_free room upperFree⟩⟩

/-- The addresses of free slots do not matter. -/
theorem Tabled.registers
    (tabled : Tabled debugger contents)
    {triggers : Triggers}
    (evt : triggers.evt = debugger.triggers.evt)
    (adr : ∀ slot < numTriggers, contents slot ≠ .free →
      triggers.adr slot = debugger.triggers.adr slot) :
    Tabled { debugger with triggers := triggers } contents where
  entry := tabled.entry
  programmed slot inside := by
    have before := tabled.programmed slot inside
    dsimp only
    rw [evt]
    by_cases free : contents slot = .free
    · rw [free] at before ⊢
      exact before
    · rw [adr slot inside free]
      exact before
  pair := tabled.pair
  even := tabled.even
  valid := tabled.valid
  live := tabled.live
  unique := tabled.unique

/-- The same requests are live. -/
theorem Tabled.relive
    (tabled : Tabled debugger contents)
    {live : List Wanted}
    (same : ∀ request, request ∈ live ↔ request ∈ debugger.live) :
    Tabled { debugger with live := live } contents where
  entry := tabled.entry
  programmed := tabled.programmed
  pair := tabled.pair
  even := tabled.even
  valid := tabled.valid
  live request := (same request).trans (tabled.live request)
  unique := tabled.unique

theorem Tabled.set
    (tabled : Tabled debugger contents)
    (fits : debugger.Fits (.set bw, outcomes)) :
    ∃ contents', Tabled (debugger.breakwatchSet outcomes bw).2 contents' := by
  cases asked : bw.wanted with
  | none =>
      refine ⟨contents, ?_⟩
      simpa [Debugger.breakwatchSet, asked] using tabled
  | some wanted =>
      obtain ⟨same, below, settles⟩ := fits wanted asked
      rw [debugger.breakwatchSet_eq asked]
      cases found : debugger.slotOfAddr wanted.addr with
      | some existing =>
          have first := Debugger.slotOfAddr_some found
          have holds := tabled.content_holds first.1 (same existing first)
          have live := (tabled.live wanted).mpr ⟨existing, first.1, holds⟩
          refine ⟨contents, tabled.relive ?_⟩
          intro request
          rw [List.mem_cons, or_iff_right_of_imp]
          rintro rfl
          exact live
      | none =>
          have unused := Debugger.slotOfAddr_none found
          have settled := settles fun slot first => unused slot first.1 ⟨first.2.1, first.2.2.1⟩
          have absent : wanted ∉ debugger.live := by
            intro live
            obtain ⟨slot, inside, used⟩ := tabled.live_used live
            exact unused slot inside used
          dsimp only
          cases room : debugger.freeFor wanted with
          | none => exact ⟨contents, tabled⟩
          | some slot =>
              obtain ⟨inside, free, pair⟩ := tabled.freeFor_some room
              have upperEvt : wanted.ranged = true →
                  slot % 2 = 0 ∧ slot + 1 < numTriggers ∧ debugger.triggers.evt (slot + 1) = 0 := by
                intro ranged
                obtain ⟨even, upperInside, upperFree⟩ := pair ranged
                have programmed := tabled.programmed (slot + 1) upperInside
                rw [upperFree] at programmed
                exact ⟨even, upperInside, programmed⟩
              dsimp only
              rcases Breakwatch.setTrigger_spec asked inside upperEvt settled with
                ⟨ok, valid, evt, adr⟩ | ⟨failed, evt, adr⟩
              · rw [if_pos ok]
                refine ⟨_, tabled.insert inside free ?_ (valid below) absent rfl evt adr rfl⟩
                exact fun ranged => ⟨(pair ranged).1, (pair ranged).2.2⟩
              · rw [if_neg (by simp [failed])]
                refine ⟨contents, tabled.registers evt ?_⟩
                intro other _ used
                apply adr
                · rintro rfl
                  exact used free
                · rintro ⟨ranged, rfl⟩
                  exact used (pair ranged).2.2

/-! ## Clears -/

theorem Triggers.clearTrigger_evt
    (inside : slot < numTriggers)
    (triggers : Triggers)
    (applied : (outcomes 0).isApplied = true) :
    (triggers.clearTrigger outcomes slot).evt = Function.update triggers.evt slot 0 := by
  rw [clearTrigger, if_neg (Nat.not_le.mpr inside), writeAdr_evt, writeEvt_evt applied]

theorem Triggers.clearTrigger_same
    (triggers : Triggers)
    (outcomes : Nat → WriteOutcome)
    (idle : triggers.evt slot = 0) : (triggers.clearTrigger outcomes slot).evt = triggers.evt := by
  unfold clearTrigger
  split_ifs
  · rfl
  · rw [writeAdr_evt, writeEvt_same idle]

theorem Triggers.clearTrigger_adr
    {other : Nat}
    (different : other ≠ slot)
    (triggers : Triggers)
    (outcomes : Nat → WriteOutcome) :
    (triggers.clearTrigger outcomes slot).adr other = triggers.adr other := by
  unfold clearTrigger
  split_ifs
  · rfl
  · rw [writeAdr_other different, writeEvt_adr]

theorem Tabled.clear
    (tabled : Tabled debugger contents)
    (fits : debugger.Fits (.clear bw, outcomes)) :
    ∃ contents', Tabled (debugger.breakwatchClear outcomes bw) contents' := by
  cases found : debugger.slotOfAddr (u32 bw.addr) with
  | none =>
      have unused := Debugger.slotOfAddr_none found
      refine ⟨contents, ?_⟩
      simp only [Debugger.breakwatchClear, Debugger.bpRemove, found]
      apply tabled.relive
      intro request
      rw [List.mem_filter, and_iff_left_iff_imp, decide_eq_true_eq]
      intro live asked
      obtain ⟨slot, inside, used, here⟩ := tabled.live_used live
      rw [Breakwatch.wanted_addr asked.symm] at here
      exact unused slot inside ⟨used, here⟩
  | some slot =>
      have first := Debugger.slotOfAddr_some found
      obtain ⟨⟨wanted, asked, same⟩, applied⟩ := fits slot first
      have inside := first.1
      have holds := tabled.content_holds inside same
      refine ⟨wanted.place slot .free .free contents, ?_⟩
      have live : ∀ request,
          (request ∈ debugger.live.filter fun request => some request ≠ bw.wanted) ↔
            request ∈ debugger.live ∧ request ≠ wanted := by
        intro request
        rw [List.mem_filter, asked]
        simp
      have evtSlot := Triggers.clearTrigger_evt inside debugger.triggers applied
      cases ranged : wanted.ranged with
      | false =>
          have single : ¬((debugger.table slot).kind = .watch ∧ (debugger.table slot).size > 1) := by
            rw [same]
            rintro ⟨watch, wide⟩
            cases wanted with
            | code addr => cases watch
            | data addr size onRead onWrite =>
                simp only [Wanted.ranged, decide_eq_false_iff_not] at ranged
                exact ranged wide
          simp only [Debugger.breakwatchClear, Debugger.bpRemove, found, single, false_and, if_false]
          apply tabled.remove inside holds
          · rw [Wanted.place_single ranged]
          · intro other _
            rw [Wanted.place_single ranged, evtSlot]
          · intro other different _
            exact Triggers.clearTrigger_adr different _ _
          · exact live
      | true =>
          have pair : (debugger.table slot).kind = .watch ∧ (debugger.table slot).size > 1 := by
            rw [same]
            cases wanted with
            | code addr => cases ranged
            | data addr size onRead onWrite => exact ⟨rfl, of_decide_eq_true ranged⟩
          have even := tabled.even slot inside wanted holds ranged
          have room : slot + 1 < numTriggers := by
            unfold numTriggers at inside ⊢
            omega
          have upper := (tabled.pair (slot + 1) room wanted).mpr
            ⟨by omega, by rw [Nat.add_sub_cancel, holds], ranged⟩
          have upperEvt := (tabled.programmed (slot + 1) room)
          rw [upper] at upperEvt
          have idle : (debugger.triggers.clearTrigger outcomes slot).evt (slot + 1) = 0 := by
            rw [evtSlot, Function.update_of_ne (Nat.succ_ne_self slot), upperEvt.1]
          simp only [Debugger.breakwatchClear, Debugger.bpRemove, found, pair, room, and_self, if_true]
          apply tabled.remove inside holds
          · rw [Wanted.place_pair ranged]
          · intro other _
            rw [Triggers.clearTrigger_same _ _ idle, evtSlot, Wanted.place_pair ranged]
            by_cases next : other = slot + 1
            · rw [next, Function.update_self, Function.update_of_ne (Nat.succ_ne_self slot), upperEvt.1]
            · rw [Function.update_of_ne next]
          · intro other different notNext
            rw [Triggers.clearTrigger_adr fun next => notNext ⟨ranged, next⟩,
              Triggers.clearTrigger_adr different]
          · exact live

/-! ## Runs -/

/-- Some contents stand behind the table and the registers. -/
def Debugger.HasContents (debugger : Debugger) : Prop := ∃ contents, Tabled debugger contents

theorem Debugger.HasContents.step
    (hasContents : debugger.HasContents)
    {request : Request × (Nat → WriteOutcome)}
    (fits : debugger.Fits request) : (debugger.step request).HasContents := by
  obtain ⟨contents, tabled⟩ := hasContents
  obtain ⟨request, outcomes⟩ := request
  cases request with
  | set bw => exact tabled.set fits
  | clear bw => exact tabled.clear fits

/-- In every run from an empty table whose requests meet at their address only
themselves, the triggers implement the requests that returned success and were not
cleared since. -/
theorem breakpoints_sound
    (empty : debugger.Empty)
    (requests : List (Request × (Nat → WriteOutcome)))
    (fits : Along Debugger.step Debugger.Fits debugger requests) :
    ∀ visited ∈ visits Debugger.step debugger requests, visited.Sound := by
  have start : debugger.HasContents := ⟨_, empty.tabled⟩
  have kept (debugger : Debugger) (request : Request × (Nat → WriteOutcome)) :
      debugger.HasContents → debugger.Fits request → (debugger.step request).HasContents :=
    fun hasContents => hasContents.step
  intro visited member
  obtain ⟨contents, tabled⟩ := visits_invariant kept start fits visited member
  exact tabled.sound

/-- Nothing armed. -/
def nothingSet : Debugger := ⟨fun _ => .free, ⟨fun _ => 0, fun _ => 0⟩, []⟩

/-- All writes go through. -/
def allOk (_ : Nat) : WriteOutcome := .ok

/-- A breakpoint, a watchpoint on four bytes, and the breakpoint taken away. -/
def fittingRequests : List (Request × (Nat → WriteOutcome)) :=
  [ (.set ⟨.breakHard, 0x80000100, 2⟩, allOk), (.set ⟨.watchWrite, 0x70000000, 4⟩, allOk),
    (.clear ⟨.breakHard, 0x80000100, 2⟩, allOk) ]

/-- A state with nothing in use at an address. -/
theorem Debugger.fits_set
    (debugger : Debugger)
    (asked : bw.wanted = some wanted)
    (unused : ∀ slot < numTriggers, ¬debugger.FirstAt wanted.addr slot)
    (below : wanted.BelowTop)
    (settles : wanted.Settles outcomes) : debugger.Fits (.set bw, outcomes) := by
  intro request same
  obtain rfl := Option.some.inj (asked.symm.trans same)
  exact ⟨fun slot first => absurd first (unused slot first.1), below, fun _ => settles⟩

theorem breakpoints_sound_fitting :
    (fittingRequests.foldl Debugger.step nothingSet).Sound := by
  have last : fittingRequests.foldl Debugger.step nothingSet ∈
      visits Debugger.step nothingSet fittingRequests := by simp [visits, fittingRequests]
  apply breakpoints_sound ⟨fun _ => rfl, fun _ => rfl, rfl⟩ fittingRequests ?_ _ last
  refine ⟨?_, ?_, ?_, True.intro⟩
  · apply Debugger.fits_set _ rfl
    · decide
    · exact True.intro
    · exact fun _ => WriteOutcome.noConfusion
  · apply Debugger.fits_set _ rfl
    · decide +kernel
    · exact fun _ => by decide
    · exact ⟨WriteOutcome.noConfusion, fun _ => ⟨rfl, rfl⟩⟩
  · intro slot first
    have held : ∀ slot < numTriggers,
        ((nothingSet.step fittingRequests[0]).step fittingRequests[1]).FirstAt 0x80000100 slot →
          ((nothingSet.step fittingRequests[0]).step fittingRequests[1]).table slot =
            (Wanted.code 0x80000100).entry := by decide +kernel
    exact ⟨⟨_, rfl, held slot first.1 first⟩, rfl⟩

/-- Watchpoints on two words in a row. -/
def adjacentWatches : List (Request × (Nat → WriteOutcome)) :=
  [ (.set ⟨.watchWrite, 0x70000000, 4⟩, allOk), (.set ⟨.watchWrite, 0x70000004, 4⟩, allOk) ]

/-- The second one returns success and is never armed. -/
theorem adjacent_watch_not_armed :
    ¬∀ visited ∈ visits Debugger.step nothingSet adjacentWatches, visited.Sound := by
  intro sound
  have last : adjacentWatches.foldl Debugger.step nothingSet ∈
      visits Debugger.step nothingSet adjacentWatches := by simp [visits, adjacentWatches]
  have live : .data 0x70000004 4 false true ∈
      (adjacentWatches.foldl Debugger.step nothingSet).live := by decide +kernel
  have silent :
      ¬(adjacentWatches.foldl Debugger.step nothingSet).triggers.Fires .write 0x70000004 := by
    decide +kernel
  apply silent
  apply ((sound _ last).implements _ _).mpr
  exact ⟨_, live, rfl, by unfold Wanted.Covers; omega⟩

end Debug
end TriCoreDap
