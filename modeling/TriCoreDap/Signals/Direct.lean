import TriCoreDap.Signals.Extractor

/-!
# The extractor by its meaning

What the extractor is for: every row by itself, every store through the shadow
memory, every sample straight into its series.
-/

namespace TriCoreDap
namespace Signals

open Decode (Row Kind)

variable {floats : Floats}

namespace Extractor

/-- A sample, handed to its series at once. -/
def sample (ex : Extractor floats) (sid : String) (t v : floats.Real) : Extractor floats :=
  let store := ex.store.extend sid [(t, v)]
  { ex with
    store := { store with samples := store.samples + 1 }
    stats := { ex.stats with samples := ex.stats.samples + 1 } }

/-- A signal's sample from the memory. -/
def sampleMemory (t : floats.Real) (ex : Extractor floats) (s : Signal) : Extractor floats :=
  match (ex.shadow.read s.addr s.size).bind (s.decode floats) with
  | none => ex
  | some v => ex.sample s.id t v.toFloat

variable (ex : Extractor floats)

/-- The selected signals that `[lo, hi)` touches. -/
def touched (lo hi : Nat) : List Signal :=
  ex.values.filter fun s => decide (s.addr < hi ∧ lo < s.stop)

def countUnmatched : Extractor floats :=
  { ex with stats := { ex.stats with unmatched := ex.stats.unmatched + 1 } }

/-- A value without an address belongs to the only signal. -/
def takeValue (value : Int) (size : Nat) (t : floats.Real) : Extractor floats :=
  match ex.single with
  | none => ex.countUnmatched
  | some s =>
      if value < 0 then ex.countUnmatched
      else
        let raw := (toBytes (max size 1) value.toNat).take s.size
        let v := s.decode floats (raw ++ List.replicate (s.size - raw.length) 0)
        ex.sample s.id t (v.elim floats.nan Value.toFloat)

/-- A store of a value goes to the memory, and every signal it touches is sampled from
there; without a value it is not known what they are now. -/
def takeStore (addr : Nat) (value : Int) (size : Nat) (t : floats.Real) : Extractor floats :=
  let touched := ex.touched addr (addr + size)
  if touched = [] then ex.countUnmatched
  else if value < 0 then touched.foldl (fun ex s => ex.sample s.id t floats.nan) ex
  else
    touched.foldl (sampleMemory t)
      { ex with shadow := ex.shadow.write addr (toBytes size value.toNat) }

def takeAccess (row : Row) (t : floats.Real) : Extractor floats :=
  if row.addr < 0 then ex.takeValue row.value row.size t
  else ex.takeStore row.addr.toNat row.value (if row.size = 0 then 4 else row.size) t

def takeHit (slot : Int) (t : floats.Real) : Extractor floats :=
  match if 0 ≤ slot then ex.hits.lookup slot.toNat else none with
  | none => ex
  | some s => ex.sample s.id t (floats.ofInt 1)

def takeHits (set : Int) (t : floats.Real) : Extractor floats :=
  if 0 ≤ set then
    ex.hits.entries.foldl
      (fun ex entry => if set.toNat.testBit entry.1 then ex.sample entry.2.id t (floats.ofInt 1)
        else ex) ex
  else ex

def addGap (t : floats.Real) : Extractor floats :=
  { ex with store := { ex.store with gaps := ex.store.gaps ++ [t] } }

def start (cycles : Int) : Extractor floats :=
  if ex.t0 = none ∧ 0 ≤ cycles then ex.begin cycles else ex

def takeTimed (row : Row) : Extractor floats :=
  let t := ex.seconds row.cycles
  let ex := { ex with store := { ex.store with
    tEnd := if floats.later t ex.store.tEnd then t else ex.store.tEnd } }
  match row.kind with
  | .write | .read => ex.takeAccess row t
  | .wps => ex.takeHit row.wp t
  | .wpm => ex.takeHits row.wp t
  | _ => ex

/-- A row by itself. -/
def take (ex : Extractor floats) (row : Row) : Extractor floats :=
  let ex := { ex with stats := { ex.stats with events := ex.stats.events + 1 } }
  if row.kind = .gap then
    { ex with stats := { ex.stats with gaps := ex.stats.gaps + 1 } }.addGap ex.store.tEnd
  else
    let ex := ex.start row.cycles
    if row.kind = .lost then
      { ex with stats := { ex.stats with lost := ex.stats.lost + row.count.toNat } }.addGap
        (if row.cycles < 0 then ex.store.tEnd else ex.seconds row.cycles)
    else if row.cycles < 0 then
      { ex with stats := { ex.stats with untimed := ex.stats.untimed + 1 } }
    else ex.takeTimed row

end Extractor

/-- What a batch amounts to so far: finished here, and without the cached plans. -/
def Feed.view (f : Feed floats) : Extractor floats := { f.finish with plans := fun _ => none }

namespace Feed

variable (f : Feed floats)

/-! ## Rows without stores -/

@[simp] theorem view_pendSample (sid : String) (t v : floats.Real) :
    (f.pendSample sid t v).view = f.view.sample sid t v := by
  have series : (fun other => f.ex.store.series other ++
      Function.update f.pend sid (f.pend sid ++ [(t, v)]) other) =
        Function.update (fun other => f.ex.store.series other ++ f.pend other) sid
          ((f.ex.store.series sid ++ f.pend sid) ++ [(t, v)]) := by
    funext other
    by_cases same : other = sid
    · rw [same, Function.update_self, Function.update_self, List.append_assoc]
    · rw [Function.update_of_ne same, Function.update_of_ne same]
  simp only [view, finish, pendSample, Extractor.sample, SignalStore.extend, ← series]
  rfl

theorem view_unmatched : f.unmatched.view = f.view.countUnmatched := rfl

theorem view_dataOnly (value : Int) (size : Nat) (t : floats.Real) :
    (f.dataOnly value size t).view = f.view.takeValue value size t := by
  have single : f.view.single = f.ex.single := rfl
  rw [dataOnly, Extractor.takeValue, single]
  cases f.ex.single with
  | none => exact f.view_unmatched
  | some s =>
      dsimp only
      split_ifs
      · exact f.view_unmatched
      · exact f.view_pendSample _ _ _

theorem view_hit (slot : Int) (t : floats.Real) : (f.hit slot t).view = f.view.takeHit slot t := by
  have hits : f.view.hits = f.ex.hits := rfl
  rw [hit, Extractor.takeHit, hits]
  cases (if 0 ≤ slot then f.ex.hits.lookup slot.toNat else none) with
  | none => rfl
  | some s => exact f.view_pendSample _ _ _

theorem view_foldl
    {α : Type}
    {step : Feed floats → α → Feed floats}
    {take : Extractor floats → α → Extractor floats}
    (each : ∀ f x, (step f x).view = take f.view x)
    (xs : List α) (f : Feed floats) : (xs.foldl step f).view = xs.foldl take f.view := by
  induction xs generalizing f with
  | nil => rfl
  | cons x rest inductionHypothesis =>
      rw [List.foldl_cons, List.foldl_cons, inductionHypothesis, each]

theorem view_hitSet (set : Int) (t : floats.Real) :
    (f.hitSet set t).view = f.view.takeHits set t := by
  have hits : f.view.hits = f.ex.hits := rfl
  rw [hitSet, Extractor.takeHits, hits]
  split_ifs
  · apply view_foldl
    intro f entry
    split_ifs
    · exact f.view_pendSample _ _ _
    · rfl
  · rfl

end Feed
end Signals
end TriCoreDap
