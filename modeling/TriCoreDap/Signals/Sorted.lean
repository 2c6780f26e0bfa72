import TriCoreDap.Signals.Batches
import TriCoreDap.Signals.Pipeline

/-!
# The times of the samples

The samples of a series come with the times of the rows that they are from, behind
initial samples that are no later than the first of them.  So where time does not run
backwards in the rows, every series is sorted, as its binary searches assume.
-/

namespace TriCoreDap
namespace Signals

open Decode (Row Kind times)

variable {floats : Floats}

namespace Feed

variable {planOf : (addr size : Nat) → Plan} {f : Feed floats}

/-- The configuration of the extractor stays, and time zero once it is known. -/
structure SameClock (ex ex' : Extractor floats) : Prop where
  t0 : ex'.t0 = ex.t0
  hz : ex'.hz = ex.hz
  initialT : ex'.initialT = ex.initialT

theorem SameClock.refl (ex : Extractor floats) : SameClock ex ex := ⟨rfl, rfl, rfl⟩

theorem SameClock.trans
    {ex ex' ex'' : Extractor floats}
    (first : SameClock ex ex')
    (second : SameClock ex' ex'') : SameClock ex ex'' :=
  ⟨second.t0.trans first.t0, second.hz.trans first.hz, second.initialT.trans first.initialT⟩

/-- The samples of a series so far, those of the batch included. -/
def series (f : Feed floats) (sid : String) : List (floats.Real × floats.Real) :=
  f.ex.store.series sid ++ f.pend sid

/-- Nothing but samples at a time is added. -/
structure AddsAt (t : floats.Real) (f f' : Feed floats) : Prop where
  clock : SameClock f.ex f'.ex
  stored : f'.ex.store.series = f.ex.store.series
  added : ∀ sid, ∃ more, f'.pend sid = f.pend sid ++ more ∧ ∀ sample ∈ more, sample.1 = t

variable {t : floats.Real} {f' f'' : Feed floats}

theorem AddsAt.of_pend
    (clock : SameClock f.ex f'.ex)
    (stored : f'.ex.store.series = f.ex.store.series)
    (same : f'.pend = f.pend) : AddsAt t f f' :=
  ⟨clock, stored, fun sid => ⟨[], by rw [same, List.append_nil], nofun⟩⟩

theorem AddsAt.refl (f : Feed floats) : AddsAt t f f := .of_pend (.refl _) rfl rfl

theorem AddsAt.trans (first : AddsAt t f f') (second : AddsAt t f' f'') : AddsAt t f f'' := by
  refine ⟨first.clock.trans second.clock, second.stored.trans first.stored, fun sid => ?_⟩
  obtain ⟨more, pend, at_t⟩ := first.added sid
  obtain ⟨more', pend', at_t'⟩ := second.added sid
  refine ⟨more ++ more', by rw [pend', pend, List.append_assoc], fun sample member => ?_⟩
  rcases List.mem_append.mp member with earlier | later
  · exact at_t sample earlier
  · exact at_t' sample later

theorem AddsAt.foldl
    {α : Type}
    {step : Feed floats → α → Feed floats}
    (each : ∀ f x, AddsAt t f (step f x))
    (xs : List α) (f : Feed floats) : AddsAt t f (xs.foldl step f) := by
  induction xs generalizing f with
  | nil => exact AddsAt.refl f
  | cons x rest inductionHypothesis => exact (each f x).trans (inductionHypothesis _)

theorem addsAt_pendSample (f : Feed floats) (sid : String) (v : floats.Real) :
    AddsAt t f (f.pendSample sid t v) := by
  refine ⟨.refl _, rfl, fun other => ?_⟩
  by_cases same : other = sid
  · refine ⟨[(t, v)], ?_, fun sample member => ?_⟩
    · rw [same]
      exact Function.update_self _ _ _
    · rw [List.mem_singleton.mp member]
  · refine ⟨[], ?_, nofun⟩
    rw [List.append_nil]
    exact Function.update_of_ne same _ _

theorem addsAt_dataOnly (f : Feed floats) (value : Int) (size : Nat) :
    AddsAt t f (f.dataOnly value size t) := by
  rw [dataOnly]
  cases f.ex.single with
  | none => exact .of_pend ⟨rfl, rfl, rfl⟩ rfl rfl
  | some s =>
      dsimp only
      split_ifs
      · exact .of_pend ⟨rfl, rfl, rfl⟩ rfl rfl
      · exact addsAt_pendSample _ _ _

theorem addsAt_fromShadow (f : Feed floats) (s : Signal) : AddsAt t f (fromShadow t f s) := by
  rw [fromShadow]
  cases (f.ex.shadow.read s.addr s.size).bind (s.decode floats) with
  | none => exact AddsAt.refl f
  | some v => exact addsAt_pendSample _ _ _

theorem addsAt_throughShadow
    (f : Feed floats) (hit : List Signal) (addr : Nat) (value : Int) (size : Nat) :
    AddsAt t f (f.throughShadow hit addr value size t) := by
  rw [throughShadow]
  split_ifs
  · apply AddsAt.foldl
    exact fun f s => addsAt_pendSample f _ _
  · have written : AddsAt t f { f with ex := { f.ex with
        shadow := f.ex.shadow.write addr (toBytes size value.toNat) } } :=
      .of_pend ⟨rfl, rfl, rfl⟩ rfl rfl
    exact written.trans (AddsAt.foldl addsAt_fromShadow _ _)

theorem addsAt_writeBack (f : Feed floats) (s : Signal) : AddsAt t f (f.writeBack s) := by
  rw [writeBack]
  cases f.ex.exactPending.lookup (s.addr * 64 + s.size) with
  | none => exact AddsAt.refl f
  | some e => exact .of_pend ⟨rfl, rfl, rfl⟩ rfl rfl

theorem addsAt_fromStore (value : Nat) (f : Feed floats) (s : Signal) :
    AddsAt t f (fromStore value t f s) := by
  rw [fromStore]
  cases s.intDecoder floats value with
  | none => exact AddsAt.refl f
  | some v => exact addsAt_pendSample _ _ _

theorem addsAt_planned (f : Feed floats) (addr size : Nat) :
    AddsAt t f (f.planned planOf addr size).2 := by
  rw [planned]
  cases f.ex.plans (addr * 64 + size) with
  | some plan => exact AddsAt.refl f
  | none => exact .of_pend ⟨rfl, rfl, rfl⟩ rfl rfl

theorem addsAt_access (f : Feed floats) (row : Row) : AddsAt t f (f.access planOf row t) := by
  rw [access]
  by_cases dataOnly : row.addr < 0
  · rw [if_pos dataOnly]
    exact addsAt_dataOnly _ _ _
  rw [if_neg dataOnly]
  generalize (if row.size = 0 then 4 else row.size) = size
  have planned : AddsAt t f (f.planned planOf row.addr.toNat size).2 := addsAt_planned _ _ _
  dsimp only
  generalize f.planned planOf row.addr.toNat size = planning at planned ⊢
  obtain ⟨plan, g⟩ := planning
  have through (hit : List Signal) :
      AddsAt t f ((hit.foldl writeBack g).throughShadow hit row.addr.toNat row.value size t) :=
    (planned.trans (AddsAt.foldl addsAt_writeBack hit g)).trans (addsAt_throughShadow _ _ _ _ _)
  cases plan with
  | none => exact planned.trans (.of_pend ⟨rfl, rfl, rfl⟩ rfl rfl)
  | overlapping hit => exact through hit
  | exact hit =>
      dsimp only
      split_ifs
      · have held : AddsAt t g { g with ex := { g.ex with
            exactPending := g.ex.exactPending.insert (row.addr.toNat * 64 + size)
              ⟨row.addr.toNat, size, row.value.toNat⟩ } } := .of_pend ⟨rfl, rfl, rfl⟩ rfl rfl
        exact (planned.trans held).trans (AddsAt.foldl (addsAt_fromStore _) _ _)
      · exact through hit

theorem addsAt_hit (f : Feed floats) (slot : Int) : AddsAt t f (f.hit slot t) := by
  rw [hit]
  cases (if 0 ≤ slot then f.ex.hits.lookup slot.toNat else none) with
  | none => exact AddsAt.refl f
  | some s => exact addsAt_pendSample _ _ _

theorem addsAt_hitSet (f : Feed floats) (set : Int) : AddsAt t f (f.hitSet set t) := by
  rw [hitSet]
  split_ifs
  · apply AddsAt.foldl
    intro f entry
    split_ifs
    · exact addsAt_pendSample _ _ _
    · exact AddsAt.refl f
  · exact AddsAt.refl f

/-- A timed event adds samples at its time. -/
theorem addsAt_timed
    (planOf : (addr size : Nat) → Plan)
    (f : Feed floats) (row : Row) :
    AddsAt (f.ex.seconds row.cycles) f (f.timed planOf row) := by
  have ended (tEnd : floats.Real) : AddsAt (f.ex.seconds row.cycles) f { f with tEnd := tEnd } :=
    .of_pend (.refl _) rfl rfl
  rw [timed]
  cases row.kind with
  | write => exact (ended _).trans (addsAt_access _ _)
  | read => exact (ended _).trans (addsAt_access _ _)
  | wps => exact (ended _).trans (addsAt_hit _ _)
  | wpm => exact (ended _).trans (addsAt_hitSet _ _)
  | _ => exact ended _

end Feed

/-! ## The order of the times -/

/-- What is used of the order of Python's floats: a number of cycles becomes a time that
rises with it, from zero on. -/
structure Floats.Ordered (floats : Floats) (hz : Option floats.Real) : Prop where
  trans : ∀ {a b c}, floats.upTo a b → floats.upTo b c → floats.upTo a c
  secs_zero : floats.secs hz 0 = floats.zero
  secs_mono : ∀ {d d' : Int}, d ≤ d' → floats.upTo (floats.secs hz d) (floats.secs hz d')

/-- The samples come in the order of their times. -/
def InOrder (series : List (floats.Real × floats.Real)) : Prop :=
  series.Pairwise fun sample later => floats.upTo sample.1 later.1

/-- Samples that all have one time, behind others that are no later. -/
theorem InOrder.append
    {series more : List (floats.Real × floats.Real)}
    {t : floats.Real}
    (inOrder : InOrder series)
    (before : ∀ sample ∈ series, floats.upTo sample.1 t)
    (at_t : ∀ sample ∈ more, sample.1 = t)
    (reflexive : floats.upTo t t) : InOrder (series ++ more) := by
  refine List.pairwise_append.mpr ⟨inOrder, ?_, fun sample member later newer => ?_⟩
  · apply List.Pairwise.imp_of_mem _ (List.pairwise_of_forall (fun _ _ => trivial))
    intro sample later member newer _
    rw [at_t sample member, at_t later newer]
    exact reflexive
  · rw [at_t later newer]
    exact before sample member

/-- The initial samples of an extractor, each at its place in time. -/
theorem initialSamples_series (ex : Extractor floats) :
    Feed.SameClock ex ex.initialSamples ∧ ∀ sid, ∃ more,
      ex.initialSamples.store.series sid = ex.store.series sid ++ more ∧
        ∀ sample ∈ more, sample.1 = ex.initialT := by
  have unsampled (ex : Extractor floats) :
      ∀ sample ∈ ([] : List (floats.Real × floats.Real)), sample.1 = ex.initialT :=
    fun sample member => absurd member List.not_mem_nil
  have one (ex : Extractor floats) (s : Signal) :
      Feed.SameClock ex (ex.initialSample s) ∧ ∀ sid, ∃ more,
        (ex.initialSample s).store.series sid = ex.store.series sid ++ more ∧
          ∀ sample ∈ more, sample.1 = ex.initialT := by
    rw [Extractor.initialSample]
    cases (ex.shadow.read s.addr s.size).bind (s.decode floats) with
    | none =>
        exact ⟨.refl ex, fun sid => ⟨[], (List.append_nil _).symm, unsampled ex⟩⟩
    | some v =>
        refine ⟨⟨rfl, rfl, rfl⟩, fun sid => ?_⟩
        by_cases same : sid = s.id
        · refine ⟨[(ex.initialT, v.toFloat)], ?_, fun sample member => ?_⟩
          · rw [same]
            exact Function.update_self _ _ _
          · rw [List.mem_singleton.mp member]
        · refine ⟨[], ?_, unsampled ex⟩
          rw [List.append_nil]
          exact Function.update_of_ne same _ _
  have all (signals : List Signal) (ex : Extractor floats) :
      Feed.SameClock ex (signals.foldl Extractor.initialSample ex) ∧ ∀ sid, ∃ more,
        (signals.foldl Extractor.initialSample ex).store.series sid =
            ex.store.series sid ++ more ∧ ∀ sample ∈ more, sample.1 = ex.initialT := by
    induction signals generalizing ex with
    | nil => exact ⟨.refl ex, fun sid => ⟨[], (List.append_nil _).symm, unsampled ex⟩⟩
    | cons s rest inductionHypothesis =>
        obtain ⟨clock, added⟩ := one ex s
        obtain ⟨clock', added'⟩ := inductionHypothesis (ex.initialSample s)
        refine ⟨clock.trans clock', fun sid => ?_⟩
        obtain ⟨more, series, at_t⟩ := added sid
        obtain ⟨more', series', at_t'⟩ := added' sid
        refine ⟨more ++ more', ?_, fun sample member => ?_⟩
        · rw [List.foldl_cons, series', series, List.append_assoc]
        · rcases List.mem_append.mp member with earlier | later
          · exact at_t sample earlier
          · exact (at_t' sample later).trans clock.initialT
  rw [Extractor.initialSamples]
  split_ifs
  · exact ⟨.refl ex, fun sid => ⟨[], (List.append_nil _).symm, unsampled ex⟩⟩
  · exact all _ _

/-- The samples are in order, and no later than a row to come that is no earlier than the
times seen. -/
structure Feed.Timely (seen : List Int) (f : Feed floats) : Prop where
  fresh : f.ex.t0 = none → seen = [] ∧
    f.ex.initialT = floats.zero ∧ (f.ex.store.series = fun _ => []) ∧ f.pend = fun _ => []
  begun : ∀ z, f.ex.t0 = some z → z ∈ seen ∧ ∀ time ∈ seen, z ≤ time
  inOrder : ∀ sid, InOrder (f.series sid)
  within : ∀ z, f.ex.t0 = some z → ∀ sid, ∀ sample ∈ f.series sid,
    ∀ cycles, (∀ time ∈ seen, time ≤ cycles) → floats.upTo sample.1 (floats.secs f.ex.hz (cycles - z))

namespace Feed

variable {seen : List Int} {f f' : Feed floats} {planOf : (addr size : Nat) → Plan}
  {cycles z : Int}

/-- Nothing but counts changes. -/
theorem Timely.same
    (timely : f.Timely seen)
    (clock : SameClock f.ex f'.ex)
    (stored : f'.ex.store.series = f.ex.store.series)
    (pend : f'.pend = f.pend) : f'.Timely seen := by
  have series (sid : String) : f'.series sid = f.series sid := by
    rw [Feed.series, stored, pend]
    rfl
  refine ⟨?_, ?_, fun sid => ?_, ?_⟩
  · rw [clock.t0, clock.initialT, stored, pend]
    exact timely.fresh
  · rw [clock.t0]
    exact timely.begun
  · rw [series]
    exact timely.inOrder sid
  · rw [clock.t0, clock.hz]
    intro z zero sid
    rw [series]
    exact timely.within z zero sid

/-- More times may have been seen, none of them before time zero. -/
theorem Timely.mono
    {more : List Int}
    (timely : f.Timely seen)
    (subset : seen ⊆ more)
    (unknown : f.ex.t0 = none → more = [])
    (later : ∀ z, f.ex.t0 = some z → ∀ time ∈ more, z ≤ time) : f.Timely more where
  fresh := fun none => ⟨unknown none, (timely.fresh none).2⟩
  begun := fun z zero => ⟨subset (timely.begun z zero).1, later z zero⟩
  inOrder := timely.inOrder
  within := fun z zero sid sample member cycles bound =>
    timely.within z zero sid sample member cycles fun time seen => bound time (subset seen)

/-- A sample at a time that is no earlier than those seen. -/
theorem Timely.addsAt
    (timely : f.Timely seen)
    (ordered : floats.Ordered f.ex.hz)
    (zero : f.ex.t0 = some z)
    (bound : ∀ time ∈ seen, time ≤ cycles)
    (adds : AddsAt (f.ex.seconds cycles) f f') : f'.Timely (seen ++ [cycles]) := by
  rw [Extractor.seconds_eq zero] at adds
  have zero' : f'.ex.t0 = some z := adds.clock.t0.trans zero
  obtain ⟨z_seen, z_le⟩ := timely.begun z zero
  have series (sid : String) : ∃ more, f'.series sid = f.series sid ++ more ∧
      ∀ sample ∈ more, sample.1 = floats.secs f.ex.hz (cycles - z) := by
    obtain ⟨more, pend, at_t⟩ := adds.added sid
    refine ⟨more, ?_, at_t⟩
    rw [Feed.series, adds.stored, pend, ← List.append_assoc]
    rfl
  refine ⟨fun none => ?_, fun other found => ?_, fun sid => ?_, fun other found sid => ?_⟩
  · rw [zero'] at none
    cases none
  · obtain rfl := Option.some.inj (zero'.symm.trans found)
    refine ⟨List.mem_append_left _ z_seen, fun time member => ?_⟩
    rcases List.mem_append.mp member with earlier | newest
    · exact z_le time earlier
    · rw [List.mem_singleton.mp newest]
      exact bound z z_seen
  · obtain ⟨more, split, at_t⟩ := series sid
    rw [split]
    exact (timely.inOrder sid).append
      (fun sample member => timely.within z zero sid sample member cycles bound) at_t
      (ordered.secs_mono (le_refl _))
  · obtain rfl := Option.some.inj (zero'.symm.trans found)
    obtain ⟨more, split, at_t⟩ := series sid
    rw [split, adds.clock.hz]
    intro sample member later last
    rcases List.mem_append.mp member with earlier | newest
    · exact timely.within z zero sid sample earlier later
        fun time inside => last time (List.mem_append_left _ inside)
    · rw [at_t sample newest]
      have le := last cycles (List.mem_append_right _ (List.mem_singleton.mpr rfl))
      exact ordered.secs_mono (by omega)

/-- Time zero, with the initial samples at it. -/
theorem Timely.started
    (timely : f.Timely seen)
    (ordered : floats.Ordered f.ex.hz)
    (bound : ∀ time ∈ seen, time ≤ cycles)
    (known : 0 ≤ cycles) :
    (f.started cycles).Timely (seen ++ [cycles]) ∧ (f.started cycles).ex.hz = f.ex.hz ∧
      (f.started cycles).ex.t0 ≠ none := by
  rw [Feed.started]
  split_ifs with first
  · obtain ⟨rfl, initial, stored, pend⟩ := timely.fresh first.1
    set ex : Extractor floats := { f.ex with t0 := some cycles } with ex_def
    obtain ⟨clock, added⟩ := initialSamples_series ex
    have zero : (f.ex.begin cycles).t0 = some cycles := clock.t0
    have zero_time : floats.zero = floats.secs f.ex.hz (cycles - cycles) := by
      rw [Int.sub_self, ordered.secs_zero]
    have series (sid : String) : ∃ more,
        ({ f with ex := f.ex.begin cycles } : Feed floats).series sid = more ∧
          ∀ sample ∈ more, sample.1 = floats.secs f.ex.hz (cycles - cycles) := by
      obtain ⟨more, split, at_t⟩ := added sid
      refine ⟨more, ?_, fun sample member => ?_⟩
      · have empty : ex.store.series sid = [] := congrFun stored sid
        rw [empty, List.nil_append] at split
        rw [Feed.series, pend, List.append_nil]
        exact split
      · rw [at_t sample member, ← zero_time]
        exact initial
    refine ⟨⟨fun none => ?_, fun z found => ?_, fun sid => ?_, fun z found sid => ?_⟩, clock.hz, ?_⟩
    · exact absurd (zero.symm.trans none) (Option.some_ne_none _)
    · obtain rfl := Option.some.inj (zero.symm.trans found)
      refine ⟨List.mem_singleton.mpr rfl, fun time member => ?_⟩
      rw [List.mem_singleton.mp member]
    · obtain ⟨more, split, at_t⟩ := series sid
      rw [split]
      exact List.nil_append more ▸ InOrder.append List.Pairwise.nil
        (fun sample member => absurd member List.not_mem_nil) at_t (ordered.secs_mono (le_refl _))
    · obtain rfl := Option.some.inj (zero.symm.trans found)
      obtain ⟨more, split, at_t⟩ := series sid
      rw [split]
      intro sample member later last
      have le := last cycles (List.mem_append_right _ (List.mem_singleton.mpr rfl))
      rw [at_t sample member]
      have hz_eq : (f.ex.begin cycles).hz = f.ex.hz := clock.hz
      change floats.upTo _ (floats.secs (f.ex.begin cycles).hz _)
      rw [hz_eq]
      exact ordered.secs_mono (by omega)
    · rw [zero]
      exact Option.some_ne_none _
  · have begun : f.ex.t0 ≠ none := fun none => first ⟨none, known⟩
    refine ⟨timely.mono (List.subset_append_left _ _) (fun none => absurd none begun)
      fun z zero time member => ?_, rfl, begun⟩
    obtain ⟨z_seen, z_le⟩ := timely.begun z zero
    rcases List.mem_append.mp member with earlier | newest
    · exact z_le time earlier
    · rw [List.mem_singleton.mp newest]
      exact bound z z_seen

/-- A row, with its time if it is known. -/
theorem Timely.takes
    {row : Row}
    (timely : f.Timely seen)
    (planOf : (addr size : Nat) → Plan)
    (ordered : floats.Ordered f.ex.hz)
    (gap : row.kind = .gap → row.cycles < 0)
    (bound : 0 ≤ row.cycles → ∀ time ∈ seen, time ≤ row.cycles) :
    (Feed.row planOf f row).Timely (seen ++ times [row]) ∧
      (Feed.row planOf f row).ex.hz = f.ex.hz := by
  have counted : f.countEvent.Timely seen := timely.same ⟨rfl, rfl, rfl⟩ rfl rfl
  rw [Feed.row]
  by_cases known : 0 ≤ row.cycles
  · have time : times [row] = [row.cycles] := List.filter_cons_of_pos (decide_eq_true known)
    have other : row.kind ≠ .gap := fun isGap => absurd (gap isGap) (not_lt.mpr known)
    obtain ⟨begun, hz_eq, t0⟩ := counted.started ordered (bound known) known
    obtain ⟨z, zero⟩ := Option.ne_none_iff_exists'.mp t0
    rw [if_neg other, time]
    dsimp only
    split_ifs with lost untimed
    · exact ⟨begun.same ⟨rfl, rfl, rfl⟩ rfl rfl, hz_eq⟩
    · exact absurd untimed (not_lt.mpr known)
    · have adds := addsAt_timed planOf (f.countEvent.started row.cycles) row
      refine ⟨?_, adds.clock.hz.trans hz_eq⟩
      have bound' : ∀ time ∈ seen ++ [row.cycles], time ≤ row.cycles := by
        intro time member
        rcases List.mem_append.mp member with earlier | newest
        · exact bound known time earlier
        · exact (List.mem_singleton.mp newest).le
      apply (begun.addsAt (hz_eq.symm ▸ ordered) zero bound' adds).mono
      · intro time member
        rcases List.mem_append.mp member with inside | newest
        · exact inside
        · exact List.mem_append_right _ newest
      · intro none
        exact absurd (adds.clock.t0.symm.trans none) t0
      · intro z' zero' time member
        obtain rfl := Option.some.inj (zero'.symm.trans (adds.clock.t0.trans zero))
        exact (begun.begun _ zero).2 time member
  · have time : times [row] = [] := List.filter_cons_of_neg (by simpa using known)
    have unstarted : f.countEvent.started row.cycles = f.countEvent := by
      rw [Feed.started, if_neg fun first => known first.2]
    rw [time, List.append_nil, unstarted]
    dsimp only
    split_ifs with isGap lost untimed
    · exact ⟨counted.same ⟨rfl, rfl, rfl⟩ rfl rfl, rfl⟩
    · exact ⟨counted.same ⟨rfl, rfl, rfl⟩ rfl rfl, rfl⟩
    · exact ⟨counted.same ⟨rfl, rfl, rfl⟩ rfl rfl, rfl⟩
    · exact absurd (not_le.mp known) untimed

end Feed

/-! ## Batches -/

/-- Gaps have no time. -/
def GapsUntimed (rows : List Row) : Prop := ∀ row ∈ rows, row.kind = .gap → row.cycles < 0

/-- The times of the rows do not decrease, and are no earlier than those seen. -/
structure Rises (seen : List Int) (rows : List Row) : Prop where
  bound : ∀ time ∈ seen, ∀ later ∈ times rows, time ≤ later
  rising : (times rows).Pairwise (· ≤ ·)

variable {seen : List Int} {rows more : List Row}

theorem Rises.split
    (rises : Rises seen (rows ++ more)) : Rises seen rows ∧ Rises (seen ++ times rows) more := by
  obtain ⟨bound, rising⟩ := rises
  rw [Decode.times_append] at bound rising
  obtain ⟨first, later, apart⟩ := List.pairwise_append.mp rising
  refine ⟨⟨fun time member other inside => ?_, first⟩, fun time member other inside => ?_, later⟩
  · exact bound time member other (List.mem_append_left _ inside)
  · rcases List.mem_append.mp member with earlier | here
    · exact bound time earlier other (List.mem_append_right _ inside)
    · exact apart time here other inside

theorem GapsUntimed.split
    (gaps : GapsUntimed (rows ++ more)) : GapsUntimed rows ∧ GapsUntimed more :=
  ⟨fun row member => gaps row (List.mem_append_left _ member),
    fun row member => gaps row (List.mem_append_right _ member)⟩

theorem Feed.Timely.foldl_row
    {f : Feed floats}
    (timely : f.Timely seen)
    (planOf : (addr size : Nat) → Plan)
    (ordered : floats.Ordered f.ex.hz)
    (gaps : GapsUntimed rows)
    (rises : Rises seen rows) :
    (rows.foldl (Feed.row planOf) f).Timely (seen ++ times rows) ∧
      (rows.foldl (Feed.row planOf) f).ex.hz = f.ex.hz := by
  induction rows generalizing f seen with
  | nil => exact ⟨(List.append_nil seen).symm ▸ timely, rfl⟩
  | cons row rest inductionHypothesis =>
      change GapsUntimed ([row] ++ rest) at gaps
      change Rises seen ([row] ++ rest) at rises
      obtain ⟨gap, gaps⟩ := gaps.split
      obtain ⟨first, later⟩ := rises.split
      have own (known : 0 ≤ row.cycles) : row.cycles ∈ times [row] := by
        rw [Decode.times, List.mem_filter]
        exact ⟨List.mem_singleton.mpr rfl, decide_eq_true known⟩
      obtain ⟨timely', hz_eq⟩ := timely.takes planOf ordered
        (gap row List.mem_cons_self) fun known time member => first.bound time member _ (own known)
      have split : times (row :: rest) = times [row] ++ times rest := Decode.times_append [row] rest
      rw [split, ← List.append_assoc, List.foldl_cons, ← hz_eq]
      exact inductionHypothesis timely' (hz_eq.symm ▸ ordered) gaps later

/-- The samples of an extractor between batches are in order. -/
def Extractor.Timely (seen : List Int) (ex : Extractor floats) : Prop := ex.feed.Timely seen

namespace Extractor

variable {ex : Extractor floats}

theorem Timely.feedRows
    (timely : ex.Timely seen)
    (ordered : floats.Ordered ex.hz)
    (gaps : GapsUntimed rows)
    (rises : Rises seen rows) :
    (ex.feedRows rows).Timely (seen ++ times rows) ∧ (ex.feedRows rows).hz = ex.hz := by
  obtain ⟨timely', hz_eq⟩ :=
    Feed.Timely.foldl_row timely ex.plan ordered gaps rises
  set f := rows.foldl (Feed.row ex.plan) ex.feed
  have series (sid : String) : f.finish.feed.series sid = f.series sid := List.append_nil _
  refine ⟨⟨fun none => ?_, timely'.begun, fun sid => ?_, fun z zero sid => ?_⟩, hz_eq⟩
  · obtain ⟨empty, initial, stored, pend⟩ := timely'.fresh none
    refine ⟨empty, initial, ?_, rfl⟩
    funext sid
    change f.ex.store.series sid ++ f.pend sid = []
    rw [stored, pend]
    rfl
  · exact (series sid).symm ▸ timely'.inOrder sid
  · change ∀ sample ∈ f.finish.feed.series sid, _
    rw [series sid]
    exact timely'.within z zero sid

/-- Batches one after the other. -/
theorem Timely.foldl_feedRows
    (timely : ex.Timely seen)
    (ordered : floats.Ordered ex.hz)
    {batches : List (List Row)}
    (gaps : GapsUntimed batches.flatten)
    (rises : Rises seen batches.flatten) :
    (batches.foldl Extractor.feedRows ex).Timely (seen ++ times batches.flatten) ∧
      (batches.foldl Extractor.feedRows ex).hz = ex.hz := by
  induction batches generalizing ex seen with
  | nil => exact ⟨(List.append_nil seen).symm ▸ timely, rfl⟩
  | cons rows rest inductionHypothesis =>
      rw [List.flatten_cons] at gaps rises
      obtain ⟨gap, gaps⟩ := gaps.split
      obtain ⟨first, later⟩ := rises.split
      obtain ⟨timely', hz_eq⟩ := timely.feedRows ordered gap first
      rw [List.flatten_cons, Decode.times_append, ← List.append_assoc, List.foldl_cons, ← hz_eq]
      exact inductionHypothesis timely' (hz_eq.symm ▸ ordered) gaps later

/-- A new extractor with its initial samples `delay` cycles after time zero. -/
theorem new_timely
    (signals : List Signal)
    {hz : Option floats.Real}
    (ordered : floats.Ordered hz)
    (config : Option (List (Nat × List Byte)))
    (t0 : Option Int)
    (memory : List (Nat × List Byte))
    (delay : Int)
    (unknown : t0 = none → seen = [] ∧ delay = 0)
    (begun : ∀ z, t0 = some z → z ∈ seen ∧ z + delay ∈ seen ∧ ∀ time ∈ seen, z ≤ time) :
    let ex := Extractor.new signals (.empty floats) hz config t0 memory (floats.secs hz delay)
    ex.Timely seen ∧ ex.hz = hz ∧ ex.t0 = t0 := by
  intro new
  have new_is := new_eq signals (.empty floats) hz t0 (floats.secs hz delay) config memory
  set ex := knowing signals (.empty floats) hz t0 (floats.secs hz delay) (config.getD [] ++ memory)
  obtain ⟨clock, added⟩ := initialSamples_series ex
  have series (sid : String) : ∃ more, new.feed.series sid = more ∧
      ∀ sample ∈ more, sample.1 = floats.secs hz delay := by
    obtain ⟨more, split, at_t⟩ := added sid
    rw [← new_is] at split
    exact ⟨more, (List.append_nil _).trans split, at_t⟩
  have t0_eq : new.t0 = t0 := (congrArg Extractor.t0 new_is).trans clock.t0
  have hz_eq : new.hz = hz := (congrArg Extractor.hz new_is).trans clock.hz
  refine ⟨⟨fun none => ?_, fun z zero => ?_, fun sid => ?_, fun z zero sid => ?_⟩, hz_eq, t0_eq⟩
  · have unset : new.t0 = Option.none := none
    rw [t0_eq] at unset
    obtain ⟨empty, rfl⟩ := unknown unset
    have unstarted : new = ex := by
      have unset : ex.t0 = Option.none := unset
      refine new_is.trans ?_
      unfold initialSamples
      exact if_pos (Or.inr unset)
    rw [unstarted]
    exact ⟨empty, ordered.secs_zero, rfl, rfl⟩
  · obtain ⟨zero_seen, -, z_le⟩ := begun z (t0_eq.symm.trans zero)
    exact ⟨zero_seen, z_le⟩
  · obtain ⟨more, split, at_t⟩ := series sid
    rw [split]
    exact List.nil_append more ▸ InOrder.append List.Pairwise.nil nofun at_t
      (ordered.secs_mono (le_refl _))
  · obtain ⟨more, split, at_t⟩ := series sid
    rw [split]
    intro sample member cycles bound
    rw [at_t sample member]
    change floats.upTo _ (floats.secs new.hz _)
    rw [hz_eq]
    have le := bound _ (begun z (t0_eq.symm.trans zero)).2.1
    exact ordered.secs_mono (by omega)

end Extractor

/-! ## The pipeline -/

namespace Pipeline

variable {p p' : Pipeline floats}

/-- The pipeline was fed the rows: the log has dropped the first of them and has the
others, and the samples are in order. -/
structure Timely (rows : List Row) (p : Pipeline floats) : Prop where
  kept : ∃ gone, rows = gone ++ p.log.rows ∧ p.log.Holds gone
  extracted : p.extractor.Timely (times rows)
  hz_eq : p.extractor.hz = p.hz

theorem firstCycles_eq
    {log : EventLog}
    (idle : log.pending = []) : log.firstCycles = (times log.rows).head? := by
  rw [EventLog.firstCycles, EventLog.rows, idle, List.append_nil, times, List.head?_filter]

theorem Timely.flushed
    (timely : p.Timely rows)
    {log : EventLog}
    (done : p.log.flush = some log) : { p with log := log }.Timely rows := by
  obtain ⟨gone, split, holds⟩ := timely.kept
  obtain ⟨⟨more, log_split, holds'⟩, -, -⟩ := EventLog.flush_follows holds done
  exact ⟨⟨gone ++ more, by rw [split, log_split, List.append_assoc], holds'⟩, timely.extracted,
    timely.hz_eq⟩

theorem Timely.recordsIn
    (timely : p.Timely rows)
    (ordered : floats.Ordered p.hz)
    (gaps : GapsUntimed more)
    (rises : Rises (times rows) more)
    (done : p.recordsIn more = some p') : p'.Timely (rows ++ more) ∧ p'.hz = p.hz := by
  rw [Pipeline.recordsIn] at done
  split_ifs at done with none
  · obtain rfl := Option.some.inj done
    rw [none, List.append_nil]
    exact ⟨timely, rfl⟩
  · obtain ⟨log, added, rfl⟩ := Option.map_eq_some_iff.mp done
    obtain ⟨gone, split, holds⟩ := timely.kept
    obtain ⟨⟨dropped, log_split, holds'⟩, -⟩ := EventLog.addRows_follows holds added
    obtain ⟨extracted, hz_eq⟩ :=
      timely.extracted.feedRows (timely.hz_eq.symm ▸ ordered) gaps rises
    refine ⟨⟨⟨gone ++ dropped, ?_, holds'⟩, ?_, hz_eq.trans timely.hz_eq⟩, rfl⟩
    · rw [split, List.append_assoc, List.append_assoc, ← log_split]
    · rw [Decode.times_append]
      exact extracted

/-- The initial samples of a new selection are at time zero or at the first event kept. -/
theorem initialT_eq (ordered : floats.Ordered p.hz) (log : EventLog) :
    ∃ delay, (if p.log.dropped ≠ 0 then p.initialT log else floats.zero) = floats.secs p.hz delay ∧
      (delay = 0 ∨ ∃ z, p.extractor.t0 = some z ∧ log.firstCycles = some (z + delay)) := by
  have zero : floats.zero = floats.secs p.hz 0 := ordered.secs_zero.symm
  split_ifs
  · rw [initialT]
    cases first : log.firstCycles with
    | none => exact ⟨0, zero, Or.inl rfl⟩
    | some cycles =>
        cases p.extractor.t0 with
        | none => exact ⟨0, zero, Or.inl rfl⟩
        | some z =>
            have sum : cycles = z + (cycles - z) := by omega
            exact ⟨cycles - z, rfl, Or.inr ⟨z, rfl, congrArg some sum⟩⟩
  · exact ⟨0, zero, Or.inl rfl⟩

/-- The new extractor is fed what is kept, behind its initial samples. -/
theorem Timely.reselect
    (timely : p.Timely rows)
    (ordered : floats.Ordered p.hz)
    (gaps : GapsUntimed rows)
    (rising : (times rows).Pairwise (· ≤ ·))
    (signals : List Signal)
    (done : p.reselect signals = some p') : p'.Timely rows ∧ p'.hz = p.hz := by
  obtain ⟨log, flush, rfl⟩ := Option.map_eq_some_iff.mp done
  obtain ⟨gone, split, holds⟩ := timely.kept
  obtain ⟨⟨more, log_split, holds'⟩, -, idle⟩ := EventLog.flush_follows holds flush
  have whole : rows = (gone ++ more) ++ log.rows := by rw [split, log_split, List.append_assoc]
  have whole_times : times rows = times (gone ++ more) ++ times log.rows := by
    rw [whole, Decode.times_append]
  have raw : log.rawRows.flatten = log.rows := EventLog.rawRows_flatten idle
  have first_eq := firstCycles_eq idle
  have kept_rising : (times log.rows).Pairwise (· ≤ ·) :=
    (List.pairwise_append.mp (whole_times ▸ rising)).2.1
  have kept_subset : times log.rows ⊆ times rows :=
    whole_times ▸ List.subset_append_right _ _
  obtain ⟨delay, initialT_eq, delayed⟩ := initialT_eq ordered log
  set seen : List Int := p.extractor.t0.elim [] fun z => [z, z + delay] with seen_def
  have known : ∀ z, p.extractor.t0 = some z → seen = [z, z + delay] := by
    intro z zero
    rw [seen_def, zero, Option.elim_some]
  have z_le : ∀ z, p.extractor.t0 = some z → ∀ time ∈ times rows, z ≤ time :=
    fun z zero => (timely.extracted.begun z zero).2
  have first_least : ∀ first, log.firstCycles = some first →
      first ∈ times log.rows ∧ ∀ time ∈ times log.rows, first ≤ time := by
    intro first found
    obtain ⟨rest, rest_eq⟩ := List.head?_eq_some_iff.mp (first_eq.symm.trans found)
    rw [rest_eq] at kept_rising ⊢
    refine ⟨List.mem_cons_self, fun time member => ?_⟩
    rcases List.mem_cons.mp member with rfl | later
    · exact le_refl _
    · exact (List.pairwise_cons.mp kept_rising).1 time later
  have second : ∀ z, p.extractor.t0 = some z → z ≤ z + delay ∧
      (∀ time ∈ times log.rows, z + delay ≤ time) ∧ z + delay ∈ times rows := by
    intro z zero
    rcases delayed with rfl | ⟨z', zero', first⟩
    · rw [Int.add_zero]
      exact ⟨le_refl _, fun time member => z_le z zero time (kept_subset member),
        (timely.extracted.begun z zero).1⟩
    · obtain rfl := Option.some.inj (zero.symm.trans zero')
      obtain ⟨member, least⟩ := first_least _ first
      exact ⟨z_le z zero _ (kept_subset member), least, kept_subset member⟩
  obtain ⟨started, hz_eq, t0_eq⟩ := @Extractor.new_timely _ seen signals _ ordered p.config
    p.extractor.t0 (if p.log.dropped ≠ 0 then p.log.memory else []) delay
    (by
      intro none
      refine ⟨by rw [seen_def, none, Option.elim_none], delayed.resolve_right ?_⟩
      rintro ⟨z, zero, -⟩
      exact absurd (none.symm.trans zero) (Option.some_ne_none z).symm)
    (by
      intro z zero
      rw [known z zero]
      refine ⟨by simp, by simp, fun time member => ?_⟩
      rcases List.mem_cons.mp member with rfl | member
      · exact le_refl _
      · rw [List.mem_singleton.mp member]
        exact (second z zero).1)
  have rises : Rises seen log.rawRows.flatten := by
    rw [raw]
    refine ⟨fun time member later inside => ?_, kept_rising⟩
    cases zero : p.extractor.t0 with
    | none =>
        rw [seen_def, zero, Option.elim_none] at member
        exact absurd member List.not_mem_nil
    | some z =>
        rw [known z zero] at member
        rcases List.mem_cons.mp member with rfl | member
        · exact z_le _ zero later (kept_subset inside)
        · rw [List.mem_singleton.mp member]
          exact (second z zero).2.1 later inside
  obtain ⟨fed, hz_fed⟩ := started.foldl_feedRows (hz_eq.symm ▸ ordered)
    (raw.symm ▸ (whole ▸ gaps).split.2) rises
  rw [← initialT_eq] at fed hz_fed hz_eq
  rw [raw] at fed
  have unknown : p.extractor.t0 = none → times rows = [] :=
    fun none => (timely.extracted.fresh none).1
  have kept : (p.reselected signals log).Timely (times rows) := by
    refine fed.mono (List.append_subset.mpr ⟨fun time member => ?_, kept_subset⟩)
      (fun none => ?_) fun z' zero' time member => ?_
    · cases zero : p.extractor.t0 with
      | none =>
          rw [seen_def, zero, Option.elim_none] at member
          exact absurd member List.not_mem_nil
      | some z =>
          rw [known z zero] at member
          rcases List.mem_cons.mp member with rfl | member
          · exact (timely.extracted.begun _ zero).1
          · rw [List.mem_singleton.mp member]
            exact (second z zero).2.2
    · cases zero : p.extractor.t0 with
      | none => exact unknown zero
      | some z =>
          have empty := (fed.fresh none).1
          rw [known z zero] at empty
          cases empty
    · cases zero : p.extractor.t0 with
      | none =>
          rw [unknown zero] at member
          exact absurd member List.not_mem_nil
      | some z =>
          apply le_trans ((fed.begun z' zero').2 z _) (z_le z zero time member)
          rw [known z zero]
          exact List.mem_cons_self
  have kept_hz : (p.reselected signals log).hz = p.hz := hz_fed.trans hz_eq
  exact ⟨⟨⟨gone ++ more, whole, holds'⟩, kept.same ⟨rfl, rfl, rfl⟩ rfl rfl, kept_hz⟩, rfl⟩

theorem Timely.step
    (timely : p.Timely rows)
    (ordered : floats.Ordered p.hz)
    (request : Request)
    (gaps : GapsUntimed (rows ++ request.rows))
    (rising : (times (rows ++ request.rows)).Pairwise (· ≤ ·))
    (done : p.step request = some p') : p'.Timely (rows ++ request.rows) ∧ p'.hz = p.hz := by
  cases request with
  | records more =>
      refine timely.recordsIn ordered gaps.split.2 ?_ done
      have rises : Rises [] (rows ++ more) :=
        ⟨fun _ none => absurd none List.not_mem_nil, rising⟩
      exact rises.split.2
  | reselect signals =>
      have same : rows ++ (Request.reselect signals).rows = rows := List.append_nil rows
      rw [same] at gaps rising ⊢
      obtain rfl := Option.some.inj done
      cases outcome : p.reselect signals with
      | none => exact ⟨timely, rfl⟩
      | some p' => exact timely.reselect ordered gaps rising signals outcome
  | query =>
      have same : rows ++ Request.query.rows = rows := List.append_nil rows
      rw [same]
      obtain rfl := Option.some.inj done
      cases outcome : p.log.flush with
      | none => exact ⟨timely, rfl⟩
      | some log => exact ⟨timely.flushed outcome, rfl⟩

theorem Timely.run
    {requests : List Request}
    (timely : p.Timely rows)
    (ordered : floats.Ordered p.hz)
    (gaps : GapsUntimed (rows ++ history requests))
    (rising : (times (rows ++ history requests)).Pairwise (· ≤ ·))
    (done : p.run requests = some p') : p'.Timely (rows ++ history requests) := by
  induction requests generalizing p rows with
  | nil =>
      obtain rfl := Option.some.inj done
      exact (List.append_nil rows).symm ▸ timely
  | cons request rest inductionHypothesis =>
      obtain ⟨next, first, later⟩ := Option.bind_eq_some_iff.mp done
      have split : rows ++ history (request :: rest) = (rows ++ request.rows) ++ history rest :=
        (List.append_assoc _ _ _).symm
      rw [split] at gaps rising ⊢
      have first_rising : (times (rows ++ request.rows)).Pairwise (· ≤ ·) := by
        rw [Decode.times_append] at rising
        exact (List.pairwise_append.mp rising).1
      obtain ⟨timely', hz_eq⟩ := timely.step ordered request gaps.split.1 first_rising first
      exact inductionHypothesis timely' (hz_eq.symm ▸ ordered) gaps rising later

theorem new_timely
    {hz : Option floats.Real}
    (ordered : floats.Ordered hz)
    (config : Option (List (Nat × List Byte)))
    (signals : List Signal)
    (logLimit : Nat) : (Pipeline.new hz config signals logLimit).Timely [] := by
  obtain ⟨started, hz_eq, -⟩ := Extractor.new_timely signals ordered config none [] 0
    (fun _ => ⟨rfl, rfl⟩) nofun
  rw [ordered.secs_zero] at started hz_eq
  exact ⟨⟨[], rfl, EventLog.holds_empty logLimit⟩, started, hz_eq⟩

end Pipeline

open Decode (Decoder Settings Paragraph)

/-- The first of the rows decoded have rising times, and no gap of them has a time. -/
theorem rising_of_decoded
    {settings : Settings}
    (noTicks : settings.tickMode = false)
    (paragraphs : List Paragraph)
    (fed : rows <+: ((Decoder.new settings).run paragraphs).1.flatten) :
    GapsUntimed rows ∧ (times rows).Pairwise (· ≤ ·) := by
  obtain ⟨-, rising⟩ := Decode.run_rising noTicks (Decode.new_settled settings) paragraphs
  obtain ⟨rest, split⟩ := fed
  constructor
  · intro row member isGap
    rw [(Decode.run_sound (Decoder.new settings) paragraphs row
      (split ▸ List.mem_append_left _ member)).2 isGap]
    decide
  · rw [← split, Decode.times_append] at rising
    exact (List.pairwise_append.mp rising).1

/-- Without tick mode the known times of the rows never decrease over all calls, and
neither do the times of any series that a pipeline has, fed these rows in any batches,
with new selections and queries between them. -/
theorem time_never_backwards
    {settings : Settings}
    (noTicks : settings.tickMode = false)
    (paragraphs : List Paragraph)
    {hz : Option floats.Real}
    (ordered : floats.Ordered hz)
    (config : Option (List (Nat × List Byte)))
    (signals : List Signal)
    (logLimit : Nat)
    {requests : List Request}
    {p : Pipeline floats}
    (fed : history requests <+: ((Decoder.new settings).run paragraphs).1.flatten)
    (ran : (Pipeline.new hz config signals logLimit).run requests = some p) :
    (times ((Decoder.new settings).run paragraphs).1.flatten).Pairwise (· ≤ ·) ∧
      ∀ sid, InOrder (p.extractor.store.series sid) := by
  obtain ⟨-, rising⟩ := Decode.run_rising noTicks (Decode.new_settled settings) paragraphs
  obtain ⟨gaps, fed_rising⟩ := rising_of_decoded noTicks paragraphs fed
  refine ⟨rising, fun sid => ?_⟩
  have timely := (Pipeline.new_timely ordered config signals logLimit).run ordered
    gaps fed_rising ran
  have series := timely.extracted.inOrder sid
  rw [Feed.series] at series
  exact List.append_nil (p.extractor.store.series sid) ▸ series

theorem wholeNumbers_ordered : wholeNumbers.Ordered none where
  trans := by
    intro a b c first second
    rw [decide_eq_true_eq] at first second ⊢
    exact le_trans first second
  secs_zero := rfl
  secs_mono := fun le => decide_eq_true le

/-- Two paragraphs, each with hits of two watch points, and a new selection. -/
theorem time_never_backwards_reselected :
    let rows := ((Decoder.new Decode.wholeCycles).run
      [⟨Decode.stampedParagraph 7, false, true⟩, ⟨Decode.stampedParagraph 9, false, true⟩]).1.flatten
    let requests := [.records rows, .reselect [hitsSignal "hits:3" 3]]
    let p := ((Pipeline.new none none [hitsSignal "hits:5" 5] 0 : Pipeline wholeNumbers).run
      requests).getD (Pipeline.new none none [] 0)
    (times rows).Pairwise (· ≤ ·) ∧ ∀ sid, InOrder (p.extractor.store.series sid) := by
  intro rows requests p
  have same (rows : List Row) (signals : List Signal) :
      history [.records rows, .reselect signals] = rows := List.append_nil rows
  have done : ((Pipeline.new none none [hitsSignal "hits:5" 5] 0 : Pipeline wholeNumbers).run
      requests).isSome = true := by
    decide +kernel
  obtain ⟨p', ran⟩ := Option.isSome_iff_exists.mp done
  have p_eq : p = p' := by
    change Option.getD _ _ = p'
    rw [ran]
    rfl
  rw [p_eq]
  exact time_never_backwards rfl _ wholeNumbers_ordered none [hitsSignal "hits:5" 5] 0
    ((same rows _).symm ▸ List.prefix_rfl) ran

end Signals
end TriCoreDap
