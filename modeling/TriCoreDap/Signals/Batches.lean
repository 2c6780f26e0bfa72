import TriCoreDap.Decode.Rising
import TriCoreDap.Signals.WriteBack

/-!
# Batches of rows

Whatever rows come in a batch, and whether exact stores bypass the shadow memory
or not, a batch amounts to its rows taken one by one.
-/

namespace TriCoreDap
namespace Signals

open Decode (Row Kind)

variable {floats : Floats} {planOf : (addr size : Nat) → Plan} {f f' : Feed floats}

/-- A plan for a store that touches the signals `touched`. -/
def Plan.Right (touched : List Signal) (addr size : Nat) : Plan → Prop
  | .none => touched = []
  | .exact hit => hit = touched ∧ touched ≠ [] ∧ ∀ s ∈ touched, s.addr = addr ∧ s.size = size
  | .overlapping hit => hit = touched ∧ touched ≠ []

/-- What holds between the rows of a batch. -/
structure Feed.Sound (planOf : (addr size : Nat) → Plan) (f : Feed floats) : Prop where
  selected : Selected f.ex.values
  right : ∀ addr size, (planOf addr size).Right (f.ex.touched addr (addr + size)) addr size
  covered : ∀ s ∈ f.ex.values, f.ex.shadow.Covers s.addr s.size
  cached : ∀ key plan, f.ex.plans key = some plan →
    ∃ addr size, size < 64 ∧ key = addr * 64 + size ∧ plan = planOf addr size
  pending : ∀ entry ∈ f.ex.exactPending.entries, Entry.Fits f.ex.values entry
  fresh : f.ex.t0 = none →
    f.ex.exactPending = ∅ ∧ (f.pend = fun _ => []) ∧ f.produced = 0

/-- The same signals, memory and plans. -/
structure SameCore (ex ex' : Extractor floats) : Prop where
  values : ex'.values = ex.values
  shadow : ex'.shadow = ex.shadow
  plans : ex'.plans = ex.plans
  exactPending : ex'.exactPending = ex.exactPending

theorem SameCore.refl (ex : Extractor floats) : SameCore ex ex := ⟨rfl, rfl, rfl, rfl⟩

theorem SameCore.trans
    {ex ex' ex'' : Extractor floats}
    (first : SameCore ex ex')
    (second : SameCore ex' ex'') : SameCore ex ex'' :=
  ⟨second.values.trans first.values, second.shadow.trans first.shadow,
    second.plans.trans first.plans, second.exactPending.trans first.exactPending⟩

theorem SameCore.foldl
    {α : Type}
    {step : Extractor floats → α → Extractor floats}
    (each : ∀ ex x, SameCore ex (step ex x))
    (xs : List α) (ex : Extractor floats) : SameCore ex (xs.foldl step ex) := by
  induction xs generalizing ex with
  | nil => exact SameCore.refl ex
  | cons x rest inductionHypothesis => exact (each ex x).trans (inductionHypothesis _)

namespace Feed

theorem Sound.of_core
    (sound : f.Sound planOf)
    (same : SameCore f.ex f'.ex)
    (fresh : f'.ex.t0 = none → f.ex.t0 = none ∧ (f'.pend = fun _ => []) ∧ f'.produced = 0) :
    f'.Sound planOf where
  selected := same.values ▸ sound.selected
  right := by
    intro addr size
    rw [Extractor.touched, same.values]
    exact sound.right addr size
  covered := by
    rw [same.values, same.shadow]
    exact sound.covered
  cached := by
    rw [same.plans]
    exact sound.cached
  pending := by
    rw [same.exactPending, same.values]
    exact sound.pending
  fresh := by
    intro none
    obtain ⟨before, rest⟩ := fresh none
    rw [same.exactPending]
    exact ⟨(sound.fresh before).1, rest⟩

/-! ## Time zero -/

/-- An extractor without its plans, and with another end of time. -/
def bare (t : floats.Real) (ex : Extractor floats) : Extractor floats :=
  { ex with plans := fun _ => none, store := { ex.store with tEnd := t } }

/-- Before time zero nothing is held back. -/
theorem view_of_fresh
    (pending : f.ex.exactPending = ∅)
    (pend : f.pend = fun _ => [])
    (produced : f.produced = 0) : f.view = bare f.tEnd f.ex := by
  obtain ⟨ex, tEnd, _, _⟩ := f
  dsimp only at pending pend produced
  subst pend produced
  have shadow : (⟨ex, tEnd, fun _ => [], 0⟩ : Feed floats).flushed = ex.shadow := by
    rw [flushed, pending]
    rfl
  simp only [view, finish, shadow, List.append_nil, Nat.add_zero, bare]
  rw [← pending]

theorem initialSample_bare (t : floats.Real) (ex : Extractor floats) (s : Signal) :
    (bare t ex).initialSample s = bare t (ex.initialSample s) := by
  simp only [Extractor.initialSample, bare]
  cases (ex.shadow.read s.addr s.size).bind (s.decode floats) <;> rfl

/-- The initial samples depend neither on the plans nor on the end of time. -/
theorem initialSamples_bare (t : floats.Real) (ex : Extractor floats) :
    (bare t ex).initialSamples = bare t ex.initialSamples := by
  have samples : ex.values.foldl Extractor.initialSample (bare t ex) =
      bare t (ex.values.foldl Extractor.initialSample ex) :=
    List.foldl_hom (bare t) (initialSample_bare t)
  simp only [Extractor.initialSamples, apply_ite (bare t), ← samples]
  rfl

theorem initialSample_core (ex : Extractor floats) (s : Signal) :
    SameCore ex (ex.initialSample s) ∧ (ex.initialSample s).t0 = ex.t0 := by
  rw [Extractor.initialSample]
  cases (ex.shadow.read s.addr s.size).bind (s.decode floats) with
  | none => exact ⟨SameCore.refl ex, rfl⟩
  | some v => exact ⟨⟨rfl, rfl, rfl, rfl⟩, rfl⟩

/-- The initial samples change nothing but series and counts. -/
theorem initialSamples_core (ex : Extractor floats) :
    SameCore ex ex.initialSamples ∧ ex.initialSamples.t0 = ex.t0 := by
  have t0 (signals : List Signal) (ex : Extractor floats) :
      (signals.foldl Extractor.initialSample ex).t0 = ex.t0 := by
    induction signals generalizing ex with
    | nil => rfl
    | cons s rest inductionHypothesis =>
        exact (inductionHypothesis _).trans (initialSample_core ex s).2
  rw [Extractor.initialSamples]
  split_ifs
  · exact ⟨SameCore.refl ex, rfl⟩
  · exact ⟨SameCore.foldl (fun ex s => (initialSample_core ex s).1) _ _, t0 _ _⟩

theorem begin_core (ex : Extractor floats) (cycles : Int) :
    SameCore ex (ex.begin cycles) ∧ (ex.begin cycles).t0 = some cycles := by
  obtain ⟨⟨values, shadow, plans, pending⟩, t0⟩ := initialSamples_core { ex with t0 := some cycles }
  exact ⟨⟨values, shadow, plans, pending⟩, t0⟩

/-- Time zero comes with the initial samples, and nothing else changes. -/
theorem started_spec (sound : f.Sound planOf) (cycles : Int) :
    (f.started cycles).view = f.view.start cycles ∧ (f.started cycles).Sound planOf ∧
      (0 ≤ cycles → (f.started cycles).ex.t0 ≠ none) := by
  have t0_view : f.view.t0 = f.ex.t0 := rfl
  rw [started, Extractor.start, t0_view]
  by_cases first : f.ex.t0 = none ∧ 0 ≤ cycles
  · rw [if_pos first, if_pos first]
    obtain ⟨pending, pend, produced⟩ := sound.fresh first.1
    obtain ⟨core, t0⟩ := begin_core f.ex cycles
    have known : (f.ex.begin cycles).t0 ≠ none := by
      rw [t0]
      exact Option.some_ne_none _
    refine ⟨?_, sound.of_core core fun none => absurd none known, fun _ => known⟩
    have begun : ({ f with ex := f.ex.begin cycles } : Feed floats).view =
        bare f.tEnd (f.ex.begin cycles) :=
      view_of_fresh (core.exactPending.trans pending) pend produced
    rw [begun, view_of_fresh pending pend produced]
    exact (initialSamples_bare f.tEnd { f.ex with t0 := some cycles }).symm
  · rw [if_neg first, if_neg first]
    exact ⟨rfl, sound, fun timed none => first ⟨none, timed⟩⟩

/-! ## Samples -/

variable {t : floats.Real} {addr size : Nat} {value : Int} {s : Signal}

theorem flushed_eq (f : Feed floats) :
    f.flushed = flush f.ex.shadow f.ex.exactPending.entries := rfl

theorem view_shadow (f : Feed floats) : f.view.shadow = f.flushed := rfl

theorem foldl_ex
    {α : Type}
    {step : Feed floats → α → Feed floats}
    (each : ∀ f x, (step f x).ex = f.ex)
    (xs : List α) (f : Feed floats) : (xs.foldl step f).ex = f.ex := by
  induction xs generalizing f with
  | nil => rfl
  | cons x rest inductionHypothesis => exact (inductionHypothesis _).trans (each f x)

theorem dataOnly_core (f : Feed floats) (value : Int) (size : Nat) (t : floats.Real) :
    SameCore f.ex (f.dataOnly value size t).ex ∧ (f.dataOnly value size t).ex.t0 = f.ex.t0 := by
  rw [dataOnly]
  cases f.ex.single with
  | none => exact ⟨⟨rfl, rfl, rfl, rfl⟩, rfl⟩
  | some s =>
      dsimp only
      split_ifs <;> exact ⟨⟨rfl, rfl, rfl, rfl⟩, rfl⟩

theorem hit_ex (f : Feed floats) (slot : Int) (t : floats.Real) : (f.hit slot t).ex = f.ex := by
  rw [hit]
  cases (if 0 ≤ slot then f.ex.hits.lookup slot.toNat else none) <;> rfl

theorem hitSet_ex (f : Feed floats) (set : Int) (t : floats.Real) :
    (f.hitSet set t).ex = f.ex := by
  rw [hitSet]
  split_ifs
  · apply foldl_ex
    intro f entry
    split_ifs <;> rfl
  · rfl

theorem fromShadow_ex (f : Feed floats) (s : Signal) : (fromShadow t f s).ex = f.ex := by
  rw [fromShadow]
  cases (f.ex.shadow.read s.addr s.size).bind (s.decode floats) <;> rfl

theorem fromStore_ex (value : Nat) (f : Feed floats) (s : Signal) :
    (fromStore value t f s).ex = f.ex := by
  rw [fromStore]
  cases s.intDecoder floats value <;> rfl

/-- After time zero only the core matters. -/
theorem Sound.timed
    (sound : f.Sound planOf)
    (same : SameCore f.ex f'.ex)
    (known : f'.ex.t0 ≠ none) : f'.Sound planOf :=
  sound.of_core same fun none => absurd none known

theorem Sound.of_ex
    (sound : f.Sound planOf)
    (known : f.ex.t0 ≠ none)
    (same : f'.ex = f.ex) : f'.Sound planOf :=
  sound.timed (same ▸ SameCore.refl _) (same ▸ known)

/-! ## Stores -/

/-- A plan that is kept is the plan. -/
theorem planned_spec (sound : f.Sound planOf) (addr : Nat) (small : size < 64) :
    (f.planned planOf addr size).1 = planOf addr size ∧
      (f.planned planOf addr size).2.view = f.view ∧
        (f.planned planOf addr size).2.Sound planOf ∧
          (f.planned planOf addr size).2.ex.values = f.ex.values ∧
            (f.planned planOf addr size).2.ex.t0 = f.ex.t0 := by
  rw [planned]
  cases found : f.ex.plans (addr * 64 + size) with
  | some plan =>
      obtain ⟨addr', size', small', key, rfl⟩ := sound.cached _ _ found
      have addr_eq : addr' = addr := by omega
      have size_eq : size' = size := by omega
      rw [addr_eq, size_eq]
      exact ⟨rfl, rfl, sound, rfl, rfl⟩
  | none =>
      refine ⟨rfl, rfl, ⟨sound.selected, sound.right, sound.covered, ?_, sound.pending,
        sound.fresh⟩, rfl, rfl⟩
      intro key plan cached
      dsimp only at cached
      by_cases same : key = addr * 64 + size
      · rw [same, Function.update_self] at cached
        exact ⟨addr, size, small, same, (Option.some.inj cached).symm⟩
      · rw [Function.update_of_ne same] at cached
        exact sound.cached key plan cached

/-- Writing a signal's own store back changes nothing of what the batch amounts to. -/
theorem writeBack_spec (sound : f.Sound planOf) (s : Signal) :
    (f.writeBack s).view = f.view ∧ (f.writeBack s).Sound planOf ∧
      (f.writeBack s).ex.values = f.ex.values ∧ (f.writeBack s).ex.t0 = f.ex.t0 ∧
        (f.writeBack s).ex.exactPending.entries ⊆ f.ex.exactPending.entries ∧
          s.addr * 64 + s.size ∉ (f.writeBack s).ex.exactPending := by
  rw [writeBack]
  cases found : f.ex.exactPending.lookup (s.addr * 64 + s.size) with
  | none =>
      exact ⟨rfl, sound, rfl, rfl, List.Subset.refl _, AList.lookup_eq_none.mp found⟩
  | some e =>
      have fewer : (f.ex.exactPending.erase (s.addr * 64 + s.size)).entries ⊆
          f.ex.exactPending.entries := (List.kerase_sublist _ _).subset
      have gone : s.addr * 64 + s.size ∉ f.ex.exactPending.erase (s.addr * 64 + s.size) :=
        List.notMem_keys_kerase _ f.ex.exactPending.nodupKeys
      refine ⟨?_, ⟨sound.selected, sound.right, ?_, sound.cached, ?_, ?_⟩, rfl, rfl, fewer, gone⟩
      · have same := flush_erase f.ex.shadow sound.pending found
        simp only [view, finish, flushed_eq, same]
      · exact fun s member => Shadow.covers_write.mpr (sound.covered s member)
      · exact fun entry member => sound.pending entry (fewer member)
      · intro none
        obtain ⟨pending, rest⟩ := sound.fresh none
        rw [pending] at found
        cases found

/-- The signals' own stores, one after the other. -/
theorem writeBacks_spec (sound : f.Sound planOf) (signals : List Signal) :
    (signals.foldl writeBack f).view = f.view ∧ (signals.foldl writeBack f).Sound planOf ∧
      (signals.foldl writeBack f).ex.values = f.ex.values ∧
        (signals.foldl writeBack f).ex.t0 = f.ex.t0 ∧
          (signals.foldl writeBack f).ex.exactPending.entries ⊆ f.ex.exactPending.entries ∧
            ∀ s ∈ signals, ∀ entry ∈ (signals.foldl writeBack f).ex.exactPending.entries,
              entry.1 ≠ s.addr * 64 + s.size := by
  induction signals generalizing f with
  | nil => exact ⟨rfl, sound, rfl, rfl, List.Subset.refl _, nofun⟩
  | cons s rest inductionHypothesis =>
      obtain ⟨view, sound', values, t0, fewer, gone⟩ := writeBack_spec sound s
      obtain ⟨views, sounds, values', t0', fewer', others⟩ := inductionHypothesis sound'
      refine ⟨views.trans view, sounds, values'.trans values, t0'.trans t0,
        List.Subset.trans fewer' fewer, fun other member entry pending => ?_⟩
      rcases List.mem_cons.mp member with rfl | member
      · intro same
        exact gone (same ▸ AList.mem_keys.mpr (List.mem_keys_of_mem (fewer' pending)))
      · exact others other member entry pending

/-- Steps that leave the extractor alone, and see of it what the batch amounts to. -/
theorem view_foldl_of
    {α : Type}
    {step : Feed floats → α → Feed floats}
    {take : Extractor floats → α → Extractor floats}
    (xs : List α) (f : Feed floats)
    (same : ∀ g x, (step g x).ex = g.ex)
    (each : ∀ g : Feed floats, g.ex = f.ex → ∀ x ∈ xs, (step g x).view = take g.view x) :
    (xs.foldl step f).view = xs.foldl take f.view := by
  have run (ys : List α) (inside : ys ⊆ xs) (g : Feed floats) (g_ex : g.ex = f.ex) :
      (ys.foldl step g).view = ys.foldl take g.view := by
    induction ys generalizing g with
    | nil => rfl
    | cons y rest inductionHypothesis =>
        rw [List.foldl_cons, List.foldl_cons,
          inductionHypothesis (List.Subset.trans (List.subset_cons_self _ _) inside) _
            ((same g y).trans g_ex), each g g_ex y (inside List.mem_cons_self)]
  exact run xs (List.Subset.refl xs) f rfl

theorem view_fromShadow
    (read : f.ex.shadow.read s.addr s.size = f.view.shadow.read s.addr s.size) :
    (fromShadow t f s).view = Extractor.sampleMemory t f.view s := by
  rw [fromShadow, Extractor.sampleMemory, read]
  cases (f.view.shadow.read s.addr s.size).bind (s.decode floats) with
  | none => rfl
  | some v => exact f.view_pendSample _ _ _

/-- A store whose signals have nothing pending goes through the memory. -/
theorem throughShadow_spec
    (sound : f.Sound planOf)
    (known : f.ex.t0 ≠ none)
    (addr size : Nat)
    (gone : ∀ s ∈ f.ex.touched addr (addr + size), ∀ entry ∈ f.ex.exactPending.entries,
      entry.1 ≠ s.addr * 64 + s.size)
    (value : Int) (t : floats.Real) :
    (f.throughShadow (f.ex.touched addr (addr + size)) addr value size t).view =
        (if value < 0 then (f.ex.touched addr (addr + size)).foldl
            (fun ex s => ex.sample s.id t floats.nan) f.view
          else (f.ex.touched addr (addr + size)).foldl (Extractor.sampleMemory t)
            { f.view with shadow := f.view.shadow.write addr (toBytes size value.toNat) }) ∧
      (f.throughShadow (f.ex.touched addr (addr + size)) addr value size t).Sound planOf := by
  have apart_signals : ∀ s ∈ f.ex.touched addr (addr + size),
      ∀ entry ∈ f.ex.exactPending.entries, Apart entry.2.addr entry.2.size s.addr s.size := by
    intro s member entry pending
    exact (sound.pending entry pending).apart_signal (Extractor.mem_touched.mp member).1
      (gone s member entry pending)
  have apart_store : ∀ entry ∈ f.ex.exactPending.entries,
      Apart entry.2.addr entry.2.size addr (toBytes size value.toNat).length := by
    intro entry pending
    rw [toBytes_length]
    by_contra touching
    rw [Apart, not_or, not_le, not_le] at touching
    have fits := sound.pending entry pending
    obtain ⟨s, member, addr_eq, size_eq⟩ := fits.exactly.some
    have hit : s ∈ f.ex.touched addr (addr + size) := by
      rw [Extractor.mem_touched, Signal.stop]
      exact ⟨member, by omega, by omega⟩
    apply gone s hit entry pending
    rw [fits.key, addr_eq, size_eq]
  rw [throughShadow]
  by_cases unknown : value < 0
  · rw [if_pos unknown, if_pos unknown]
    constructor
    · apply view_foldl
      intro f s
      exact f.view_pendSample _ _ _
    · apply sound.of_ex known
      apply foldl_ex
      exact fun _ _ => rfl
  · rw [if_neg unknown, if_neg unknown]
    set g : Feed floats :=
      { f with ex := { f.ex with
        shadow := f.ex.shadow.write addr (toBytes size value.toNat) } } with g_def
    have g_flushed : g.flushed = f.flushed.write addr (toBytes size value.toNat) :=
      flush_write _ apart_store
    have g_view : g.view =
        { f.view with shadow := f.view.shadow.write addr (toBytes size value.toNat) } := by
      have shadow : f.view.shadow = f.flushed := rfl
      rw [shadow, ← g_flushed]
      rfl
    have g_sound : g.Sound planOf := ⟨sound.selected, sound.right,
      fun s member => Shadow.covers_write.mpr (sound.covered s member), sound.cached,
      sound.pending, fun none => absurd none known⟩
    constructor
    · rw [← g_view]
      apply view_foldl_of _ _ fromShadow_ex
      intro h h_ex s member
      apply view_fromShadow
      rw [view_shadow, flushed_eq, h_ex]
      exact (flush_read (apart_signals s member)).symm
    · exact g_sound.of_ex known (foldl_ex fromShadow_ex _ _)

/-- A store of exactly its signals' bytes. -/
theorem exact_spec
    (sound : f.Sound planOf)
    (known : f.ex.t0 ≠ none)
    (addr size : Nat)
    (any : f.ex.touched addr (addr + size) ≠ [])
    (exactly : ∀ s ∈ f.ex.touched addr (addr + size), s.addr = addr ∧ s.size = size)
    {value : Nat}
    (small : size < 64)
    (fits : value < 2 ^ (8 * size))
    (t : floats.Real) :
    let g : Feed floats := { f with ex := { f.ex with
      exactPending := f.ex.exactPending.insert (addr * 64 + size) ⟨addr, size, value⟩ } }
    ((f.ex.touched addr (addr + size)).foldl (fromStore value t) g).view =
        (f.ex.touched addr (addr + size)).foldl (Extractor.sampleMemory t)
          { f.view with shadow := f.view.shadow.write addr (toBytes size value) } ∧
      ((f.ex.touched addr (addr + size)).foldl (fromStore value t) g).Sound planOf := by
  intro g
  have new : Entry.Fits f.ex.values ⟨addr * 64 + size, addr, size, value⟩ := by
    refine ⟨rfl, small, ?_, fun s member below above => ?_⟩
    · obtain ⟨s, member⟩ := List.exists_mem_of_ne_nil _ any
      exact ⟨s, (Extractor.mem_touched.mp member).1, exactly s member⟩
    · exact exactly s (Extractor.mem_touched.mpr ⟨member, below, above⟩)
  have g_flushed : g.flushed = f.flushed.write addr (toBytes size value) :=
    flush_insert sound.pending new
  have g_view : g.view =
      { f.view with shadow := f.view.shadow.write addr (toBytes size value) } := by
    have shadow : f.view.shadow = f.flushed := rfl
    rw [shadow, ← g_flushed]
    rfl
  have g_sound : g.Sound planOf := by
    refine ⟨sound.selected, sound.right, sound.covered, sound.cached, fun entry member => ?_,
      fun none => absurd none known⟩
    have member : entry ∈ (⟨addr * 64 + size, addr, size, value⟩ : Entry) ::
        (f.ex.exactPending.erase (addr * 64 + size)).entries := by
      change entry ∈ (⟨addr * 64 + size, addr, size, value⟩ : Entry) ::
        f.ex.exactPending.entries.kerase (addr * 64 + size)
      rw [← AList.entries_insert]
      exact member
    rcases List.mem_cons.mp member with rfl | member
    · exact new
    · exact sound.pending entry ((List.kerase_sublist _ _).subset member)
  constructor
  · rw [← g_view]
    apply view_foldl_of _ _ (fromStore_ex value)
    intro h h_ex s member
    obtain ⟨addr_eq, size_eq⟩ := exactly s member
    have inside := (Extractor.mem_touched.mp member).1
    have positive := sound.selected.positive s inside
    have covers : f.flushed.Covers addr (toBytes size value).length := by
      rw [toBytes_length, ← addr_eq, ← size_eq]
      exact flush_covers.mpr (sound.covered s inside)
    have read : h.view.shadow.read s.addr s.size = some (toBytes s.size value) := by
      have h_flushed : h.view.shadow = f.flushed.write addr (toBytes size value) := by
        rw [view_shadow, flushed_eq, h_ex, ← g_flushed, flushed_eq]
      have same := Shadow.read_write_same covers
      rw [toBytes_length] at same
      rw [h_flushed, addr_eq, size_eq]
      exact same
    rw [Extractor.sampleMemory, read, Option.bind_some, fromStore,
      intDecoder_eq positive (by rwa [size_eq])]
    cases s.decode floats (toBytes s.size value) with
    | none => rfl
    | some v => exact h.view_pendSample _ _ _
  · exact g_sound.of_ex known (foldl_ex (fromStore_ex value) _ _)

/-! ## Rows -/

variable {row : Row}

theorem access_spec
    (sound : f.Sound planOf)
    (known : f.ex.t0 ≠ none)
    (fits : row.Fits)
    (t : floats.Real) :
    (f.access planOf row t).view = f.view.takeAccess row t ∧
      (f.access planOf row t).Sound planOf := by
  rw [access, Extractor.takeAccess]
  by_cases dataOnly : row.addr < 0
  · rw [if_pos dataOnly, if_pos dataOnly]
    obtain ⟨core, t0⟩ := f.dataOnly_core row.value row.size t
    exact ⟨f.view_dataOnly _ _ _, sound.timed core (t0 ▸ known)⟩
  rw [if_neg dataOnly, if_neg dataOnly]
  set addr := row.addr.toNat
  set size := if row.size = 0 then 4 else row.size with size_def
  have small : size < 64 := by
    have := fits.1
    rw [size_def]
    split_ifs <;> omega
  have value_fits : row.value.toNat < 2 ^ (8 * size) := by
    have row_fits := fits.2
    have wider : 2 ^ (8 * row.size) ≤ 2 ^ (8 * size) := by
      apply Nat.pow_le_pow_right (by decide)
      rw [size_def]
      split_ifs <;> omega
    have bytes : row.value.toNat < 2 ^ (8 * row.size) := by
      rw [Int.toNat_lt' (Nat.two_pow_pos _)]
      exact_mod_cast row_fits
    exact bytes.trans_le wider
  obtain ⟨plan_eq, view, sound', values, t0⟩ := planned_spec sound addr small
  have known' := t0 ▸ known
  have touched : (f.planned planOf addr size).2.ex.touched addr (addr + size) =
      f.view.touched addr (addr + size) := by
    rw [Extractor.touched, values]
    rfl
  have through (hit : List Signal) (hit_eq : hit = f.view.touched addr (addr + size)) :
      let g := hit.foldl writeBack (f.planned planOf addr size).2
      (g.throughShadow hit addr row.value size t).view =
          (if row.value < 0 then hit.foldl (fun ex s => ex.sample s.id t floats.nan) f.view
            else hit.foldl (Extractor.sampleMemory t)
              { f.view with shadow := f.view.shadow.write addr (toBytes size row.value.toNat) }) ∧
        (g.throughShadow hit addr row.value size t).Sound planOf := by
    obtain ⟨view', sound'', values', t0', -, gone⟩ := writeBacks_spec sound' hit
    have hit_eq' : hit =
        (hit.foldl writeBack (f.planned planOf addr size).2).ex.touched addr (addr + size) := by
      rw [Extractor.touched, values', ← Extractor.touched, touched, hit_eq]
    have spec := throughShadow_spec sound'' (t0' ▸ known') addr size
      (hit_eq' ▸ gone) row.value t
    rw [← hit_eq', view', view] at spec
    exact spec
  have right := sound'.right addr size
  rw [touched] at right
  rw [Extractor.takeStore]
  dsimp only
  rw [plan_eq]
  cases plan : planOf addr size with
  | none =>
      rw [plan] at right
      have none_hit : f.view.touched addr (addr + size) = [] := right
      rw [if_pos none_hit]
      exact ⟨congrArg Extractor.countUnmatched view, sound'.timed ⟨rfl, rfl, rfl, rfl⟩ known'⟩
  | overlapping hit =>
      rw [plan] at right
      obtain ⟨rfl, any⟩ := right
      rw [if_neg any]
      exact through _ rfl
  | exact hit =>
      rw [plan] at right
      obtain ⟨rfl, any, exactly⟩ := right
      rw [if_neg any]
      by_cases valued : 0 ≤ row.value
      · dsimp only
        rw [if_pos valued, if_neg (not_lt.mpr valued)]
        have spec := exact_spec sound' known' addr size (touched ▸ any)
          (touched ▸ exactly) small value_fits t
        rw [touched, view] at spec
        exact spec
      · dsimp only
        rw [if_neg valued]
        exact through _ rfl

theorem timed_spec
    (sound : f.Sound planOf)
    (known : f.ex.t0 ≠ none)
    (fits : row.Fits) :
    (f.timed planOf row).view = f.view.takeTimed row ∧ (f.timed planOf row).Sound planOf := by
  set g : Feed floats := { f with
    tEnd := if floats.later (f.ex.seconds row.cycles) f.tEnd then f.ex.seconds row.cycles
      else f.tEnd } with g_def
  have g_sound : g.Sound planOf := sound.of_ex known rfl
  have g_known : g.ex.t0 ≠ none := known
  unfold timed Extractor.takeTimed
  cases row.kind with
  | write => exact access_spec g_sound g_known fits _
  | read => exact access_spec g_sound g_known fits _
  | wps => exact ⟨g.view_hit _ _, g_sound.of_ex g_known (g.hit_ex _ _)⟩
  | wpm => exact ⟨g.view_hitSet _ _, g_sound.of_ex g_known (g.hitSet_ex _ _)⟩
  | evc => exact ⟨rfl, g_sound⟩
  | lost => exact ⟨rfl, g_sound⟩
  | gap => exact ⟨rfl, g_sound⟩

/-- A row of a batch is taken as it would be by itself. -/
theorem row_spec (sound : f.Sound planOf) (fits : row.Fits) :
    (Feed.row planOf f row).view = f.view.take row ∧ (Feed.row planOf f row).Sound planOf := by
  have counted : f.countEvent.Sound planOf :=
    sound.of_core ⟨rfl, rfl, rfl, rfl⟩ fun none => ⟨none, (sound.fresh none).2⟩
  rw [Feed.row, Extractor.take]
  by_cases gap : row.kind = .gap
  · simp only [if_pos gap]
    exact ⟨rfl, counted.of_core ⟨rfl, rfl, rfl, rfl⟩ fun none => ⟨none, (counted.fresh none).2⟩⟩
  simp only [if_neg gap]
  obtain ⟨started, begun, known⟩ := started_spec counted row.cycles
  have view : f.countEvent.view =
      { f.view with stats := { f.view.stats with events := f.view.stats.events + 1 } } := rfl
  rw [← view, ← started]
  by_cases lost : row.kind = .lost
  · rw [if_pos lost, if_pos lost]
    exact ⟨rfl, begun.of_core ⟨rfl, rfl, rfl, rfl⟩ fun none => ⟨none, (begun.fresh none).2⟩⟩
  rw [if_neg lost, if_neg lost]
  by_cases untimed : row.cycles < 0
  · rw [if_pos untimed, if_pos untimed]
    exact ⟨rfl, begun.of_core ⟨rfl, rfl, rfl, rfl⟩ fun none => ⟨none, (begun.fresh none).2⟩⟩
  · rw [if_neg untimed, if_neg untimed]
    exact timed_spec begun (known (not_lt.mp untimed)) fits

/-! ## Batches -/

theorem foldl_row_spec
    (sound : f.Sound planOf)
    {rows : List Row}
    (fits : ∀ row ∈ rows, row.Fits) :
    (rows.foldl (Feed.row planOf) f).view = rows.foldl Extractor.take f.view ∧
      (rows.foldl (Feed.row planOf) f).Sound planOf := by
  induction rows generalizing f with
  | nil => exact ⟨rfl, sound⟩
  | cons row rest inductionHypothesis =>
      obtain ⟨view, sound'⟩ := row_spec sound (fits row List.mem_cons_self)
      rw [List.foldl_cons, List.foldl_cons, ← view]
      exact inductionHypothesis sound' fun other member => fits other (List.mem_cons_of_mem _ member)

/-- At the end of a batch nothing is pending. -/
theorem finish_spec (sound : f.Sound planOf) :
    f.finish.feed.view = f.view ∧ f.finish.feed.Sound planOf := by
  constructor
  · simp only [view, finish, Extractor.feed, flushed, AList.empty_entries, List.foldl_nil,
      List.append_nil, Nat.add_zero]
  · refine ⟨sound.selected, sound.right, fun s member => flush_covers.mpr (sound.covered s member),
      sound.cached, fun entry member => absurd member List.not_mem_nil,
      fun _ => ⟨rfl, rfl, rfl⟩⟩

theorem feedRowsBy_spec
    {ex : Extractor floats}
    (sound : ex.feed.Sound planOf)
    {rows : List Row}
    (fits : ∀ row ∈ rows, row.Fits) :
    (ex.feedRowsBy planOf rows).feed.view = rows.foldl Extractor.take ex.feed.view ∧
      (ex.feedRowsBy planOf rows).feed.Sound planOf := by
  obtain ⟨view, sound'⟩ := foldl_row_spec sound fits
  obtain ⟨same, sound''⟩ := finish_spec sound'
  exact ⟨same.trans view, sound''⟩

end Feed

/-! ## Whole runs -/

namespace Extractor

variable {ex : Extractor floats}

/-- The selection is in order, its memory is represented, and nothing is pending. -/
structure Ready (ex : Extractor floats) : Prop where
  selected : Selected ex.values
  covered : ∀ s ∈ ex.values, ex.shadow.Covers s.addr s.size
  pending : ex.exactPending = ∅

theorem right_plan (selected : Selected ex.values) (addr size : Nat) :
    (ex.plan addr size).Right (ex.touched addr (addr + size)) addr size := by
  rw [plan, overlapping_eq selected.sorted]
  split_ifs with missed exactly
  · exact missed
  · exact ⟨rfl, missed, exactly⟩
  · exact ⟨rfl, missed⟩

theorem right_shadowPlan (selected : Selected ex.values) (addr size : Nat) :
    (ex.shadowPlan addr size).Right (ex.touched addr (addr + size)) addr size := by
  have right := right_plan selected addr size
  rw [shadowPlan]
  generalize ex.plan addr size = plan at right ⊢
  cases plan with
  | none => exact right
  | overlapping hit => exact right
  | exact hit => exact ⟨right.1, right.2.1⟩

theorem Ready.sound
    (ready : ex.Ready)
    (plans : ex.plans = fun _ => none)
    (right : ∀ addr size, (planOf addr size).Right (ex.touched addr (addr + size)) addr size) :
    ex.feed.Sound planOf where
  selected := ready.selected
  right := right
  covered := ready.covered
  cached := by
    intro key plan found
    change ex.plans key = some plan at found
    rw [plans] at found
    cases found
  pending := by
    intro entry member
    change entry ∈ ex.exactPending.entries at member
    rw [ready.pending] at member
    exact absurd member List.not_mem_nil
  fresh := fun _ => ⟨ready.pending, rfl, rfl⟩

theorem seen_eq (ex : Extractor floats) :
    ex.feed.view.store = ex.store ∧ ex.feed.view.stats = ex.stats ∧
      (ex.exactPending = ∅ → ex.feed.view.shadow = ex.shadow) := by
  refine ⟨?_, rfl, fun pending => ?_⟩
  · simp only [Feed.view, Feed.finish, feed, List.append_nil, Nat.add_zero]
  · simp only [Feed.view, Feed.finish, feed, Feed.flushed, pending, AList.empty_entries,
      List.foldl_nil]

/-- Any batches, by any right way to plan stores, amount to the rows one by one. -/
theorem foldl_feedRowsBy
    (sound : ex.feed.Sound planOf)
    (batches : List (List Row))
    (fits : ∀ row ∈ batches.flatten, row.Fits) :
    (batches.foldl (fun ex rows => ex.feedRowsBy planOf rows) ex).feed.view =
        batches.flatten.foldl take ex.feed.view ∧
      (batches.foldl (fun ex rows => ex.feedRowsBy planOf rows) ex).feed.Sound planOf := by
  induction batches generalizing ex with
  | nil => exact ⟨rfl, sound⟩
  | cons rows rest inductionHypothesis =>
      rw [List.flatten_cons] at fits ⊢
      obtain ⟨view, sound'⟩ := Feed.feedRowsBy_spec sound
        fun row member => fits row (List.mem_append_left _ member)
      rw [List.foldl_cons, List.foldl_append, ← view]
      exact inductionHypothesis sound' fun row member => fits row (List.mem_append_right _ member)

/-! ## The selection stays -/

/-- The same signals, and the same clock. -/
structure SameSelection (ex ex' : Extractor floats) : Prop where
  values : ex'.values = ex.values
  hits : ex'.hits = ex.hits
  hz : ex'.hz = ex.hz
  t0 : ex'.t0 = ex.t0

theorem SameSelection.refl (ex : Extractor floats) : SameSelection ex ex := ⟨rfl, rfl, rfl, rfl⟩

theorem SameSelection.trans
    {ex ex' ex'' : Extractor floats}
    (first : SameSelection ex ex')
    (second : SameSelection ex' ex'') : SameSelection ex ex'' :=
  ⟨second.values.trans first.values, second.hits.trans first.hits, second.hz.trans first.hz,
    second.t0.trans first.t0⟩

theorem SameSelection.foldl
    {α : Type}
    {step : Extractor floats → α → Extractor floats}
    (each : ∀ ex x, SameSelection ex (step ex x))
    (xs : List α) (ex : Extractor floats) : SameSelection ex (xs.foldl step ex) := by
  induction xs generalizing ex with
  | nil => exact SameSelection.refl ex
  | cons x rest inductionHypothesis => exact (each ex x).trans (inductionHypothesis _)

theorem sampleMemory_selection (t : floats.Real) (ex : Extractor floats) (s : Signal) :
    SameSelection ex (sampleMemory t ex s) := by
  rw [sampleMemory]
  cases (ex.shadow.read s.addr s.size).bind (s.decode floats) with
  | none => exact SameSelection.refl ex
  | some v => exact ⟨rfl, rfl, rfl, rfl⟩

theorem takeValue_selection
    (ex : Extractor floats) (value : Int) (size : Nat) (t : floats.Real) :
    SameSelection ex (ex.takeValue value size t) := by
  rw [takeValue]
  cases ex.single with
  | none => exact ⟨rfl, rfl, rfl, rfl⟩
  | some s =>
      dsimp only
      split_ifs <;> exact ⟨rfl, rfl, rfl, rfl⟩

theorem takeStore_selection
    (ex : Extractor floats)
    (addr : Nat) (value : Int) (size : Nat) (t : floats.Real) :
    SameSelection ex (ex.takeStore addr value size t) := by
  rw [takeStore]
  split_ifs
  · exact ⟨rfl, rfl, rfl, rfl⟩
  · apply SameSelection.foldl
    exact fun _ _ => ⟨rfl, rfl, rfl, rfl⟩
  · have written : SameSelection ex
        { ex with shadow := ex.shadow.write addr (toBytes size value.toNat) } :=
      ⟨rfl, rfl, rfl, rfl⟩
    exact written.trans (SameSelection.foldl (sampleMemory_selection t) _ _)

theorem takeAccess_selection (ex : Extractor floats) (row : Row) (t : floats.Real) :
    SameSelection ex (ex.takeAccess row t) := by
  rw [takeAccess]
  by_cases dataOnly : row.addr < 0
  · rw [if_pos dataOnly]
    exact takeValue_selection _ _ _ _
  · rw [if_neg dataOnly]
    exact takeStore_selection _ _ _ _ _

theorem takeHit_selection (ex : Extractor floats) (slot : Int) (t : floats.Real) :
    SameSelection ex (ex.takeHit slot t) := by
  rw [takeHit]
  cases (if 0 ≤ slot then ex.hits.lookup slot.toNat else none) <;> exact ⟨rfl, rfl, rfl, rfl⟩

theorem takeHits_selection (ex : Extractor floats) (set : Int) (t : floats.Real) :
    SameSelection ex (ex.takeHits set t) := by
  rw [takeHits]
  split_ifs
  · apply SameSelection.foldl
    intro ex entry
    split_ifs <;> exact ⟨rfl, rfl, rfl, rfl⟩
  · exact SameSelection.refl ex

theorem takeTimed_selection (ex : Extractor floats) (row : Row) :
    SameSelection ex (ex.takeTimed row) := by
  have ended (tEnd : floats.Real) :
      SameSelection ex { ex with store := { ex.store with tEnd := tEnd } } := ⟨rfl, rfl, rfl, rfl⟩
  rw [takeTimed]
  cases row.kind with
  | write => exact (ended _).trans (takeAccess_selection _ _ _)
  | read => exact (ended _).trans (takeAccess_selection _ _ _)
  | wps => exact (ended _).trans (takeHit_selection _ _ _)
  | wpm => exact (ended _).trans (takeHits_selection _ _ _)
  | _ => exact ended _

theorem start_values (ex : Extractor floats) (cycles : Int) :
    (ex.start cycles).values = ex.values := by
  rw [start]
  split_ifs
  · exact (Feed.begin_core ex cycles).1.values
  · rfl

theorem take_values (ex : Extractor floats) (row : Row) : (ex.take row).values = ex.values := by
  simp only [take, apply_ite Extractor.values, (takeTimed_selection _ _).values]
  simp only [addGap, start_values, ite_self]

theorem foldl_take_values (rows : List Row) (ex : Extractor floats) :
    (rows.foldl take ex).values = ex.values := by
  induction rows generalizing ex with
  | nil => rfl
  | cons row rest inductionHypothesis => exact (inductionHypothesis _).trans (take_values ex row)

/-- A batch keeps the selection. -/
theorem feedRowsBy_values
    (sound : ex.feed.Sound planOf)
    {rows : List Row}
    (fits : ∀ row ∈ rows, row.Fits) : (ex.feedRowsBy planOf rows).values = ex.values := by
  have view := congrArg Extractor.values (Feed.feedRowsBy_spec sound fits).1
  rw [foldl_take_values] at view
  exact view

/-- Plans depend on the selection alone. -/
theorem plan_congr
    {ex ex' : Extractor floats}
    (same : ex'.values = ex.values) : ex'.plan = ex.plan := by
  funext addr size
  have overlapping : ex'.overlapping addr (addr + size) = ex.overlapping addr (addr + size) := by
    rw [Extractor.overlapping, searchsorted, maxSize, same]
    rfl
  rw [plan, overlapping, plan]

theorem shadowPlan_congr
    {ex ex' : Extractor floats}
    (same : ex'.values = ex.values) : ex'.shadowPlan = ex.shadowPlan := by
  funext addr size
  rw [shadowPlan, shadowPlan, plan_congr same]

/-- Batches one after the other, each by the plans of the extractor that takes it. -/
theorem foldl_feedRows
    (planOf : Extractor floats → (addr size : Nat) → Plan)
    (congr : ∀ ex ex' : Extractor floats, ex'.values = ex.values → planOf ex' = planOf ex)
    (sound : ex.feed.Sound (planOf ex))
    (batches : List (List Row))
    (fits : ∀ row ∈ batches.flatten, row.Fits) :
    batches.foldl (fun ex rows => ex.feedRowsBy (planOf ex) rows) ex =
      batches.foldl (fun ex' rows => ex'.feedRowsBy (planOf ex) rows) ex := by
  have run (batches : List (List Row)) (fits : ∀ row ∈ batches.flatten, row.Fits)
      (now : Extractor floats) (values : now.values = ex.values)
      (sound : now.feed.Sound (planOf ex)) :
      batches.foldl (fun ex rows => ex.feedRowsBy (planOf ex) rows) now =
        batches.foldl (fun ex' rows => ex'.feedRowsBy (planOf ex) rows) now := by
    induction batches generalizing now with
    | nil => rfl
    | cons rows rest inductionHypothesis =>
        rw [List.flatten_cons] at fits
        have first : ∀ row ∈ rows, row.Fits :=
          fun row member => fits row (List.mem_append_left _ member)
        rw [List.foldl_cons, List.foldl_cons, congr ex now values]
        apply inductionHypothesis fun row member => fits row (List.mem_append_right _ member)
        · exact (feedRowsBy_values sound first).trans values
        · exact (Feed.feedRowsBy_spec sound first).2
  exact run batches fits ex rfl sound

/-! ## A new extractor -/

theorem insertionSort_addr (signals : List Signal) :
    (signals.insertionSort fun s s' : Signal => s.addr ≤ s'.addr).Pairwise
      fun s s' => s.addr ≤ s'.addr := by
  have total : Std.Total fun s s' : Signal => s.addr ≤ s'.addr :=
    ⟨fun s s' => Nat.le_total s.addr s'.addr⟩
  have transitive : IsTrans Signal fun s s' => s.addr ≤ s'.addr :=
    ⟨fun _ _ _ => Nat.le_trans⟩
  exact List.pairwise_insertionSort _ _

theorem covers_signals (signals : List Signal) (shadow : Shadow) :
    (∀ addr size, shadow.Covers addr size →
        (signals.foldl (fun shadow s => shadow.cover s.addr s.stop) shadow).Covers addr size) ∧
      ∀ s ∈ signals,
        (signals.foldl (fun shadow s => shadow.cover s.addr s.stop) shadow).Covers s.addr s.size := by
  induction signals generalizing shadow with
  | nil => exact ⟨fun _ _ covers => covers, nofun⟩
  | cons s rest inductionHypothesis =>
      obtain ⟨keeps, each⟩ := inductionHypothesis (shadow.cover s.addr s.stop)
      refine ⟨fun addr size covers => keeps _ _ (covers.cover _ _), fun other member => ?_⟩
      rcases List.mem_cons.mp member with rfl | member
      · have own : (shadow.cover other.addr other.stop).Covers other.addr
            (other.stop - other.addr) := Shadow.covers_cover (Nat.le_add_right _ _)
        rw [Signal.stop, Nat.add_sub_cancel_left] at own
        exact keeps _ _ own
      · exact each other member

/-- An extractor that knows these bytes, before its initial samples. -/
def knowing
    (signals : List Signal)
    (store : SignalStore floats)
    (hz : Option floats.Real)
    (t0 : Option Int)
    (initialT : floats.Real)
    (known : List (Nat × List Byte)) : Extractor floats where
  values := (valuesOf signals).insertionSort fun s s' => s.addr ≤ s'.addr
  hits := (signals.filter fun s => decide (s.kind = .hits)).foldl
    (fun hits s => hits.insert s.slot s) ∅
  hz := hz
  initialT := initialT
  t0 := t0
  shadow := known.foldl (fun shadow run => shadow.write run.1 run.2)
    ((valuesOf signals).foldl (fun shadow s => shadow.cover s.addr s.stop) [])
  seeded := decide (known ≠ [])
  plans := fun _ => none
  exactPending := ∅
  stats := ⟨0, 0, 0, 0, 0, 0⟩
  store := store

section
variable (signals : List Signal) (store : SignalStore floats) (hz : Option floats.Real)
  (t0 : Option Int) (initialT : floats.Real)

theorem foldl_writeKnown (known more : List (Nat × List Byte)) :
    more.foldl writeKnown (knowing signals store hz t0 initialT known) =
      knowing signals store hz t0 initialT (known ++ more) := by
  induction more generalizing known with
  | nil => rw [List.append_nil, List.foldl_nil]
  | cons run rest inductionHypothesis =>
      have one : (knowing signals store hz t0 initialT known).writeKnown run =
          knowing signals store hz t0 initialT (known ++ [run]) := by
        have some : decide (known ++ [run] ≠ []) = true :=
          decide_eq_true (List.append_ne_nil_of_right_ne_nil _ (List.cons_ne_nil _ _))
        simp only [knowing, writeKnown, List.foldl_append, List.foldl_cons, List.foldl_nil, some]
      rw [List.foldl_cons, one, inductionHypothesis, List.append_assoc]
      rfl

/-- A new extractor knows the snapshot and the memory on top of it, and starts with the
samples that these give. -/
theorem new_eq (config : Option (List (Nat × List Byte))) (memory : List (Nat × List Byte)) :
    Extractor.new signals store hz config t0 memory initialT =
      (knowing signals store hz t0 initialT (config.getD [] ++ memory)).initialSamples := by
  set start : Extractor floats := config.elim (knowing signals store hz t0 initialT [])
    (knowing signals store hz t0 initialT []).seed with start_def
  have unfolded : Extractor.new signals store hz config t0 memory initialT =
      if t0 ≠ none ∧ (config ≠ none ∨ memory ≠ [])
        then (memory.foldl writeKnown start).initialSamples
        else memory.foldl writeKnown start := by
    cases config <;> rfl
  have known : memory.foldl writeKnown start =
      knowing signals store hz t0 initialT (config.getD [] ++ memory) := by
    cases config with
    | none => exact foldl_writeKnown _ _ _ _ _ [] memory
    | some snapshot =>
        have seeded : start = knowing signals store hz t0 initialT snapshot :=
          foldl_writeKnown signals store hz t0 initialT [] snapshot
        rw [seeded]
        exact foldl_writeKnown _ _ _ _ _ snapshot memory
  rw [unfolded, known]
  split_ifs with begun
  · rfl
  · rw [initialSamples, if_pos]
    by_cases zero : t0 = none
    · exact Or.inr zero
    · left
      have nothing : config = none ∧ memory = [] := by
        by_contra some
        exact begun ⟨zero, by tauto⟩
      rw [nothing.1, nothing.2]
      rfl

end

theorem foldl_write_covers (known : List (Nat × List Byte)) (shadow : Shadow) (addr size : Nat) :
    (known.foldl (fun shadow run => shadow.write run.1 run.2) shadow).Covers addr size ↔
      shadow.Covers addr size := by
  induction known generalizing shadow with
  | nil => exact Iff.rfl
  | cons run rest inductionHypothesis =>
      exact (inductionHypothesis _).trans Shadow.covers_write

theorem new_ready
    (signals : List Signal)
    (store : SignalStore floats)
    (hz : Option floats.Real)
    (config : Option (List (Nat × List Byte)))
    (t0 : Option Int)
    (memory : List (Nat × List Byte))
    (initialT : floats.Real) :
    (Extractor.new signals store hz config t0 memory initialT).Ready ∧
      (Extractor.new signals store hz config t0 memory initialT).plans = fun _ => none := by
  rw [new_eq]
  set ex := knowing signals store hz t0 initialT (config.getD [] ++ memory)
  obtain ⟨core, -⟩ := Feed.initialSamples_core ex
  have member (s : Signal) : s ∈ ex.values ↔ s ∈ valuesOf signals := List.mem_insertionSort _
  refine ⟨⟨?_, ?_, core.exactPending⟩, core.plans⟩
  · rw [core.values]
    refine ⟨insertionSort_addr _, fun s inside => ?_⟩
    exact (of_decide_eq_true (List.mem_filter.mp ((member s).mp inside)).2).2
  · rw [core.values, core.shadow]
    intro s inside
    apply (foldl_write_covers _ _ _ _).mpr
    exact (covers_signals (valuesOf signals) []).2 s ((member s).mp inside)

theorem foldl_pending
    {α : Type}
    {step : Extractor floats → α → Extractor floats}
    (each : ∀ ex x, (step ex x).exactPending = ∅)
    (xs : List α)
    (pending : ex.exactPending = ∅) : (xs.foldl step ex).exactPending = ∅ := by
  induction xs generalizing ex with
  | nil => exact pending
  | cons x rest inductionHypothesis => exact inductionHypothesis (each ex x)

/-- A row goes through the shadow memory by itself. -/
theorem foldl_feedThroughShadow (rows : List Row) (ex : Extractor floats) :
    rows.foldl feedThroughShadow ex =
      (rows.map fun row => [row]).foldl (fun ex rows => ex.feedRowsBy ex.shadowPlan rows) ex := by
  rw [List.foldl_map]
  rfl

/-- However rows are batched, the samples of every signal, the gaps, the statistics and
the shadow memory are those of the rows one by one, every store taken through the
shadow memory. -/
theorem fast_agrees_with_shadow
    (signals : List Signal)
    (store : SignalStore floats)
    (hz : Option floats.Real)
    (config : Option (List (Nat × List Byte)))
    (t0 : Option Int)
    (memory : List (Nat × List Byte))
    (initialT : floats.Real)
    (batches : List (List Row))
    (fits : ∀ row ∈ batches.flatten, row.Fits) :
    let ex := Extractor.new signals store hz config t0 memory initialT
    let fast := batches.foldl feedRows ex
    let slow := batches.flatten.foldl feedThroughShadow ex
    fast.store = slow.store ∧ fast.stats = slow.stats ∧ fast.shadow = slow.shadow := by
  intro ex fast slow
  obtain ⟨ready, plans⟩ := new_ready signals store hz config t0 memory initialT
  have exact_sound := ready.sound plans (right_plan ready.selected)
  have shadow_sound := ready.sound plans (right_shadowPlan ready.selected)
  have singles : (batches.flatten.map fun row => [row]).flatten = batches.flatten := by
    rw [← List.flatMap_def, List.flatMap_singleton']
  have fast_eq := foldl_feedRows plan (fun _ _ => plan_congr) exact_sound batches fits
  have slow_eq := foldl_feedRows shadowPlan (fun _ _ => shadowPlan_congr) shadow_sound
    (batches.flatten.map fun row => [row]) (singles.symm ▸ fits)
  obtain ⟨fast_view, fast_sound⟩ := foldl_feedRowsBy exact_sound batches fits
  obtain ⟨slow_view, slow_sound⟩ := foldl_feedRowsBy shadow_sound
    (batches.flatten.map fun row => [row]) (singles.symm ▸ fits)
  rw [singles] at slow_view
  rw [← foldl_feedThroughShadow] at slow_eq
  rw [← fast_eq] at fast_view fast_sound
  rw [← slow_eq] at slow_view slow_sound
  have same : fast.feed.view = slow.feed.view := fast_view.trans slow_view.symm
  obtain ⟨fast_store, fast_stats, fast_shadow⟩ := seen_eq fast
  obtain ⟨slow_store, slow_stats, slow_shadow⟩ := seen_eq slow
  have fast_pending : fast.exactPending = ∅ := foldl_pending (fun _ _ => rfl) _ ready.pending
  have slow_pending : slow.exactPending = ∅ := foldl_pending (fun _ _ => rfl) _ ready.pending
  refine ⟨?_, ?_, ?_⟩
  · rw [← fast_store, same, slow_store]
  · rw [← fast_stats, same, slow_stats]
  · rw [← fast_shadow fast_pending, same, slow_shadow slow_pending]

/-- A word, then a byte of it in the same batch. -/
theorem fast_agrees_with_shadow_partial :
    let ex := Extractor.new [rawSignal "raw:0x00000100:4" 0x100 4 false]
      (SignalStore.empty wholeNumbers) none none none [] 0
    let rows : List Row := [⟨0, .write, 0x100, 0x11223344, 4, -1, -1, "DTU0", -1⟩,
      ⟨10, .write, 0x101, 0xAA, 1, -1, -1, "DTU0", -1⟩]
    (ex.feedRows rows).store = (rows.foldl feedThroughShadow ex).store :=
  (fast_agrees_with_shadow _ _ _ _ _ _ _
    [[⟨0, .write, 0x100, 0x11223344, 4, -1, -1, "DTU0", -1⟩,
      ⟨10, .write, 0x101, 0xAA, 1, -1, -1, "DTU0", -1⟩]] (by decide)).1

end Extractor
end Signals
end TriCoreDap
