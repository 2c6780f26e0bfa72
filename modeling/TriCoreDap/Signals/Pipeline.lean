import TriCoreDap.Signals.EventLog

/-!
# The pipeline

`session.py`: `_Pipeline` after the decoder, which feeds the event log and an
extractor, and builds a new extractor for a new selection from the log.
-/

namespace TriCoreDap
namespace Signals

open Decode (Row Kind)

variable {floats : Floats}

/-- `cycles / hz if hz else float(cycles)` -/
def Floats.secs (floats : Floats) (hz : Option floats.Real) (cycles : Int) : floats.Real :=
  match hz with
  | some hz => floats.quot (floats.ofInt cycles) hz
  | none => floats.ofInt cycles

theorem Extractor.seconds_eq
    {ex : Extractor floats}
    (zero : ex.t0 = some z)
    (cycles : Int) : ex.seconds cycles = floats.secs ex.hz (cycles - z) := by
  unfold seconds Floats.secs
  cases ex.hz <;> simp only [zero, Option.getD_some]

/-- `_Pipeline` after the decoder. -/
structure Pipeline (floats : Floats) where
  hz : Option floats.Real
  config : Option (List (Nat × List Byte))
  log : EventLog
  extractor : Extractor floats

/-- `_Pipeline(...)`. -/
def Pipeline.new
    (hz : Option floats.Real)
    (config : Option (List (Nat × List Byte)))
    (signals : List Signal)
    (logLimit : Nat) : Pipeline floats where
  hz := hz
  config := config
  log := .empty logLimit
  extractor := .new signals (.empty floats) hz config none [] floats.zero

/-- What is asked of a pipeline; a query looks at the events kept, as `addresses`. -/
inductive Request
  | records (rows : List Row)
  | reselect (signals : List Signal)
  | query

/-- The rows that a request brings. -/
def Request.rows : Request → List Row
  | .records rows => rows
  | _ => []

/-- Every row that was fed. -/
def history (requests : List Request) : List Row := requests.flatMap Request.rows

namespace Pipeline

variable (p : Pipeline floats)

/-- The rows of `_records_in`. -/
def recordsIn (rows : List Row) : Option (Pipeline floats) :=
  if rows = [] then some p
  else (p.log.addRows rows).map fun log =>
    { p with log := log, extractor := p.extractor.feedRows rows }

/-- Where `reselect` puts the initial samples: at the first event kept, if some are gone. -/
def initialT (log : EventLog) : floats.Real :=
  match log.firstCycles, p.extractor.t0 with
  | some first, some t0 => floats.secs p.hz (first - t0)
  | _, _ => floats.zero

/-- The new extractor of `reselect`, with the memory of before the log is flushed. -/
def reselected (signals : List Signal) (flushed : EventLog) : Extractor floats :=
  let ex := Extractor.new signals (.empty floats) p.hz p.config p.extractor.t0
    (if p.log.dropped ≠ 0 then p.log.memory else [])
    (if p.log.dropped ≠ 0 then p.initialT flushed else floats.zero)
  flushed.rawRows.foldl Extractor.feedRows ex

/-- `reselect`. -/
def reselect (signals : List Signal) : Option (Pipeline floats) :=
  p.log.flush.map fun flushed =>
    let ex := p.reselected signals flushed
    let old := p.extractor.store
    { p with
      log := flushed
      extractor := { ex with store := { ex.store with
        gaps := old.gaps
        tEnd := if floats.later old.tEnd ex.store.tEnd then old.tEnd else ex.store.tEnd } } }

/-- A request's effect; one for a selection or the addresses that fails is answered and
changes nothing. -/
def step (p : Pipeline floats) : Request → Option (Pipeline floats)
  | .records rows => p.recordsIn rows
  | .reselect signals => some ((p.reselect signals).getD p)
  | .query => some { p with log := p.log.flush.getD p.log }

/-- Requests one after the other. -/
def run : (p : Pipeline floats) → List Request → Option (Pipeline floats)
  | p, [] => some p
  | p, request :: rest => (p.step request).bind fun p => p.run rest

end Pipeline

end Signals
end TriCoreDap
