import TriCoreDap.Decode.Messages
import TriCoreDap.Signals.Leaves
import TriCoreDap.Signals.Shadow
import Mathlib.Data.List.AList

/-!
# The extractor

`signals.py`: `Extractor`, which turns decoder rows into samples of the selected
signals.  A store that covers exactly the signals it touches is decoded without
the shadow memory and written to it later.  A batch of rows is a call of
`feed_rows`: samples are collected in it and handed to the store at its end.
-/

namespace TriCoreDap
namespace Signals

open Decode (Row Kind)

/-- `SignalStore`: each series as its samples, a time and a value. -/
structure SignalStore (floats : Floats) where
  series : String → List (floats.Real × floats.Real)
  gaps : List floats.Real
  tEnd : floats.Real
  samples : Nat

/-- `ExtractStats`. -/
structure ExtractStats where
  events : Nat
  samples : Nat
  untimed : Nat
  unmatched : Nat
  lost : Nat
  gaps : Nat
  deriving DecidableEq, Repr

/-- A store that is not in the shadow memory yet. -/
structure ExactStore where
  addr : Nat
  size : Nat
  value : Nat
  deriving DecidableEq, Repr

/-- How a store is handled: by no signal, by the signals that it covers exactly, or
by those it overlaps, through the shadow memory. -/
inductive Plan
  | none
  | exact (hit : List Signal)
  | overlapping (hit : List Signal)

/-- `Extractor`.  The order of the entries of its dictionaries does not matter. -/
structure Extractor (floats : Floats) where
  values : List Signal
  hits : AList fun _ : Nat => Signal
  hz : Option floats.Real
  initialT : floats.Real
  t0 : Option Int
  shadow : Shadow
  seeded : Bool
  plans : Nat → Option Plan
  exactPending : AList fun _ : Nat => ExactStore
  stats : ExtractStats
  store : SignalStore floats

variable {floats : Floats}

/-- An empty store. -/
def SignalStore.empty (floats : Floats) : SignalStore floats where
  series := fun _ => []
  gaps := []
  tEnd := floats.zero
  samples := 0

/-- `Series.extend` of one series. -/
def SignalStore.extend
    (store : SignalStore floats)
    (sid : String)
    (samples : List (floats.Real × floats.Real)) : SignalStore floats :=
  { store with series := Function.update store.series sid (store.series sid ++ samples) }

namespace Extractor

variable (ex : Extractor floats)

/-! ## The start -/

/-- The part of `_initial_samples` for one signal. -/
def initialSample (s : Signal) : Extractor floats :=
  match (ex.shadow.read s.addr s.size).bind (s.decode floats) with
  | none => ex
  | some v =>
      let store := ex.store.extend s.id [(ex.initialT, v.toFloat)]
      { ex with
        store := { store with samples := store.samples + 1 }
        stats := { ex.stats with samples := ex.stats.samples + 1 } }

/-- `_initial_samples`. -/
def initialSamples : Extractor floats :=
  if !ex.seeded ∨ ex.t0 = none then ex
  else ex.values.foldl initialSample ex

/-- Known bytes. -/
def writeKnown (known : Nat × List Byte) : Extractor floats :=
  { ex with shadow := ex.shadow.write known.1 known.2, seeded := true }

/-- `seed`: the parts of the snapshot that can be read. -/
def seed (snapshot : List (Nat × List Byte)) : Extractor floats :=
  snapshot.foldl writeKnown { ex with seeded := false }

end Extractor

/-- The value signals that are selected, in their order. -/
def valuesOf (signals : List Signal) : List Signal :=
  signals.filter fun s => decide (s.kind = .value ∧ 0 < s.size)

/-- `Extractor(...)`: the configuration with its snapshot, if there is one, and
memory known on top of it. -/
def Extractor.new
    (signals : List Signal)
    (store : SignalStore floats)
    (hz : Option floats.Real)
    (config : Option (List (Nat × List Byte)))
    (t0 : Option Int)
    (memory : List (Nat × List Byte))
    (initialT : floats.Real) : Extractor floats :=
  let ex : Extractor floats :=
    { values := (valuesOf signals).insertionSort fun s s' => s.addr ≤ s'.addr
      hits := (signals.filter fun s => decide (s.kind = .hits)).foldl
        (fun hits s => hits.insert s.slot s) ∅
      hz := hz
      initialT := initialT
      t0 := t0
      shadow := (valuesOf signals).foldl (fun shadow s => shadow.cover s.addr s.stop) []
      seeded := false
      plans := fun _ => none
      exactPending := ∅
      stats := ⟨0, 0, 0, 0, 0, 0⟩
      store := store }
  let ex := match config with
    | some snapshot => ex.seed snapshot
    | none => ex
  let ex := memory.foldl Extractor.writeKnown ex
  if t0 ≠ none ∧ (config ≠ none ∨ memory ≠ []) then ex.initialSamples else ex

namespace Extractor

variable (ex : Extractor floats)

/-- `_time` for the first timed row: time zero. -/
def begin (cycles : Int) : Extractor floats := { ex with t0 := some cycles }.initialSamples

/-- `(cycles - t0) / hz if hz else float(cycles - t0)` -/
def seconds (cycles : Int) : floats.Real :=
  match ex.hz with
  | some hz => floats.quot (floats.ofInt (cycles - ex.t0.getD 0)) hz
  | none => floats.ofInt (cycles - ex.t0.getD 0)

/-- `single` -/
def single : Option Signal :=
  match ex.values with
  | [s] => some s
  | _ => none

/-! ## Plans -/

/-- `_max_size` -/
def maxSize : Nat := ex.values.foldl (fun most s => max most s.size) 0

/-- `np.searchsorted(starts, x, side='left')` -/
def searchsorted (x : Int) : Nat :=
  (ex.values.takeWhile fun s => decide ((s.addr : Int) < x)).length

/-- `_overlapping`. -/
def overlapping (lo hi : Nat) : List Signal :=
  ((ex.values.drop (ex.searchsorted (lo - ex.maxSize))).takeWhile
    fun s => decide (s.addr < hi)).filter fun s => decide (s.stop > lo)

/-- `_plan`. -/
def plan (addr size : Nat) : Plan :=
  let hit := ex.overlapping addr (addr + size)
  if hit = [] then .none
  else if ∀ s ∈ hit, s.addr = addr ∧ s.size = size then .exact hit
  else .overlapping hit

end Extractor

/-! ## A batch of rows -/

/-- The variables of `feed_rows`; a series without samples yet is empty in `pend`. -/
structure Feed (floats : Floats) where
  ex : Extractor floats
  tEnd : floats.Real
  pend : String → List (floats.Real × floats.Real)
  produced : Nat

namespace Feed

variable (f : Feed floats)

/-- `_pend`, and the count of it. -/
def pendSample (sid : String) (t v : floats.Real) : Feed floats :=
  { f with
    pend := Function.update f.pend sid (f.pend sid ++ [(t, v)])
    produced := f.produced + 1 }

def unmatched : Feed floats :=
  { f with ex := { f.ex with stats := { f.ex.stats with
      unmatched := f.ex.stats.unmatched + 1 } } }

/-- `_data_only`. -/
def dataOnly (value : Int) (size : Nat) (t : floats.Real) : Feed floats :=
  match f.ex.single with
  | none => f.unmatched
  | some s =>
      if value < 0 then f.unmatched
      else
        let raw := (toBytes (max size 1) value.toNat).take s.size
        let v := s.decode floats (raw ++ List.replicate (s.size - raw.length) 0)
        f.pendSample s.id t (v.elim floats.nan Value.toFloat)

/-- A signal that was stored to, from its bytes. -/
def fromShadow (t : floats.Real) (f : Feed floats) (s : Signal) : Feed floats :=
  match (f.ex.shadow.read s.addr s.size).bind (s.decode floats) with
  | none => f
  | some v => f.pendSample s.id t v.toFloat

/-- `_through_shadow`. -/
def throughShadow
    (hit : List Signal)
    (addr : Nat) (value : Int) (size : Nat)
    (t : floats.Real) : Feed floats :=
  if value < 0 then hit.foldl (fun f s => f.pendSample s.id t floats.nan) f
  else
    hit.foldl (fromShadow t)
      { f with ex := { f.ex with shadow := f.ex.shadow.write addr (toBytes size value.toNat) } }

/-- A signal's own exact store goes to the shadow memory. -/
def writeBack (f : Feed floats) (s : Signal) : Feed floats :=
  let key := s.addr * 64 + s.size
  match f.ex.exactPending.lookup key with
  | none => f
  | some e =>
      { f with ex := { f.ex with
          exactPending := f.ex.exactPending.erase key
          shadow := f.ex.shadow.write e.addr (toBytes e.size e.value) } }

/-- The sample of a signal that was stored to exactly. -/
def fromStore (value : Nat) (t : floats.Real) (f : Feed floats) (s : Signal) : Feed floats :=
  match s.intDecoder floats value with
  | none => f
  | some v => f.pendSample s.id t v.toFloat

/-- The plan for a store, kept for the next one. -/
def planned (planOf : (addr size : Nat) → Plan) (addr size : Nat) : Plan × Feed floats :=
  let key := addr * 64 + size
  match f.ex.plans key with
  | some plan => (plan, f)
  | none =>
      (planOf addr size, { f with ex := { f.ex with
        plans := Function.update f.ex.plans key (some (planOf addr size)) } })

/-- An access. -/
def access
    (planOf : (addr size : Nat) → Plan)
    (row : Row)
    (t : floats.Real) : Feed floats :=
  if row.addr < 0 then f.dataOnly row.value row.size t
  else
    let addr := row.addr.toNat
    let size := if row.size = 0 then 4 else row.size
    let (plan, f) := f.planned planOf addr size
    match plan with
    | .none => f.unmatched
    | .exact hit =>
        if 0 ≤ row.value then
          let pending := f.ex.exactPending.insert (addr * 64 + size) ⟨addr, size, row.value.toNat⟩
          hit.foldl (fromStore row.value.toNat t)
            { f with ex := { f.ex with exactPending := pending } }
        else (hit.foldl writeBack f).throughShadow hit addr row.value size t
    | .overlapping hit => (hit.foldl writeBack f).throughShadow hit addr row.value size t

/-- A watch-point hit of a slot. -/
def hit (slot : Int) (t : floats.Real) : Feed floats :=
  match if 0 ≤ slot then f.ex.hits.lookup slot.toNat else none with
  | none => f
  | some s => f.pendSample s.id t (floats.ofInt 1)

/-- Watch-point hits of a set of slots. -/
def hitSet (set : Int) (t : floats.Real) : Feed floats :=
  if 0 ≤ set then
    f.ex.hits.entries.foldl
      (fun f entry => if set.toNat.testBit entry.1 then f.pendSample entry.2.id t (floats.ofInt 1)
        else f) f
  else f

def countEvent : Feed floats :=
  { f with ex := { f.ex with stats := { f.ex.stats with events := f.ex.stats.events + 1 } } }

/-- A gap, at the latest time seen. -/
def gap : Feed floats :=
  { f with ex := { f.ex with
      stats := { f.ex.stats with gaps := f.ex.stats.gaps + 1 }
      store := { f.ex.store with gaps := f.ex.store.gaps ++ [f.tEnd] } } }

/-- Messages that the target lost. -/
def lost (count cycles : Int) : Feed floats :=
  { f with ex := { f.ex with
      stats := { f.ex.stats with lost := f.ex.stats.lost + count.toNat }
      store := { f.ex.store with gaps := f.ex.store.gaps ++
        [if cycles < 0 then f.tEnd else f.ex.seconds cycles] } } }

def untimed : Feed floats :=
  { f with ex := { f.ex with stats := { f.ex.stats with untimed := f.ex.stats.untimed + 1 } } }

/-- Time zero, at the first timed row. -/
def started (cycles : Int) : Feed floats :=
  if f.ex.t0 = none ∧ 0 ≤ cycles then { f with ex := f.ex.begin cycles } else f

/-- What a timed event does. -/
def timed
    (planOf : (addr size : Nat) → Plan)
    (row : Row) : Feed floats :=
  let t := f.ex.seconds row.cycles
  let f := { f with tEnd := if floats.later t f.tEnd then t else f.tEnd }
  match row.kind with
  | .write | .read => f.access planOf row t
  | .wps => f.hit row.wp t
  | .wpm => f.hitSet row.wp t
  | _ => f

/-- A round of `feed_rows`. -/
def row (planOf : (addr size : Nat) → Plan) (f : Feed floats) (row : Row) : Feed floats :=
  let f := f.countEvent
  if row.kind = .gap then f.gap
  else
    let f := f.started row.cycles
    if row.kind = .lost then f.lost row.count row.cycles
    else if row.cycles < 0 then f.untimed
    else f.timed planOf row

/-- `_flush_exact`. -/
def flushed : Shadow :=
  f.ex.exactPending.entries.foldl
    (fun shadow entry => shadow.write entry.2.addr (toBytes entry.2.size entry.2.value)) f.ex.shadow

/-- The end of `feed_rows`. -/
def finish : Extractor floats :=
  { f.ex with
    shadow := f.flushed
    exactPending := ∅
    stats := { f.ex.stats with samples := f.ex.stats.samples + f.produced }
    store := { f.ex.store with
      series := fun sid => f.ex.store.series sid ++ f.pend sid
      tEnd := f.tEnd
      samples := f.ex.store.samples + f.produced } }

end Feed

namespace Extractor

variable (ex : Extractor floats)

/-- The start of `feed_rows`. -/
def feed : Feed floats := ⟨ex, ex.store.tEnd, fun _ => [], 0⟩

/-- `feed_rows` with a way to plan stores. -/
def feedRowsBy (planOf : (addr size : Nat) → Plan) (rows : List Row) : Extractor floats :=
  (rows.foldl (Feed.row planOf) ex.feed).finish

/-- `feed_rows`. -/
def feedRows (rows : List Row) : Extractor floats := ex.feedRowsBy ex.plan rows

/-- The plan that takes every store through the shadow memory. -/
def shadowPlan (addr size : Nat) : Plan :=
  match ex.plan addr size with
  | .exact hit => .overlapping hit
  | other => other

/-- One row, a valued store through the shadow memory always. -/
def feedThroughShadow (ex : Extractor floats) (row : Row) : Extractor floats :=
  ex.feedRowsBy ex.shadowPlan [row]

end Extractor
end Signals
end TriCoreDap
