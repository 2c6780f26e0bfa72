import TriCoreDap.Signals.Held
import TriCoreDap.Signals.Sorted

/-!
# New selections

An extractor built by `reselect` against one that had the selection from the start.
Of events that the log has dropped the memory that they left is all there is.
-/

namespace TriCoreDap
namespace Signals

open Decode (Row Kind times)

variable {floats : Floats}

/-- The extractor that had the selection from the start. -/
def Pipeline.fromStart
    (p : Pipeline floats)
    (signals : List Signal)
    (rows : List Row) : Extractor floats :=
  (Extractor.new signals (.empty floats) p.hz p.config p.extractor.t0 [] floats.zero).feedRows rows

/-- Where reselecting works, its held values are those of a selection from the start, at
every time from the first timed event kept on. -/
def Pipeline.Agrees
    (p : Pipeline floats)
    (signals : List Signal)
    (rows : List Row) : Prop :=
  ∃ p', p.reselect signals = some p' ∧
    ∀ first z, p'.log.firstCycles = some first → p.extractor.t0 = some z →
      ∀ time, floats.upTo (floats.secs p.hz (first - z)) time → ∀ sid,
        heldAt (p'.extractor.store.series sid) time =
          heldAt ((p.fromStart signals rows).store.series sid) time

/-! ## The condition -/

/-- All that a dropped row tells of the selection is in the memory that it left. -/
def Represented (signals : List Signal) (row : Row) : Prop :=
  if 0 ≤ row.cycles then Plain signals row else Touches signals row → row.value < 0

/-- A row tells nothing of the selection. -/
def Idle (signals : List Signal) (row : Row) : Prop :=
  0 ≤ row.cycles → Plain signals row ∧ ¬Touches signals row

/-- Reselecting can do without the rows that the log has dropped, and without those that
its own flush still drops. -/
structure Reselectable
    (p : Pipeline floats)
    (signals : List Signal)
    (rows : List Row)
    (flushed : EventLog) : Prop where
  distinct : (signals.map Signal.id).Nodup
  represented : ∀ row ∈ rows.take p.log.dropped, Represented signals row
  idle : ∀ row ∈ (rows.take flushed.dropped).drop p.log.dropped, Idle signals row
  earlier : ∀ first, flushed.firstCycles = some first →
    ∀ row ∈ rows.take flushed.dropped, row.cycles ≤ first

/-- The rows that are pending go into their columns, and nothing is dropped, or only rows
that reselecting can do without. -/
def Pipeline.CanReselect
    (p : Pipeline floats)
    (signals : List Signal)
    (rows : List Row) : Prop :=
  ∃ flushed, p.log.flush = some flushed ∧
    (flushed.dropped = 0 ∨ Reselectable p signals rows flushed)

/-! ## Runs -/

/-- The pipeline was fed the rows. -/
structure Pipeline.Fed (rows : List Row) (p : Pipeline floats) : Prop where
  kept : ∃ gone, rows = gone ++ p.log.rows ∧ p.log.Holds gone
  t0_eq : p.extractor.t0 = (times rows).head?

namespace Pipeline

variable {p p' : Pipeline floats} {rows more : List Row}

theorem row_t0
    (planOf : (addr size : Nat) → Plan)
    (f : Feed floats) (row : Row)
    (gap : row.kind = .gap → row.cycles < 0) :
    (Feed.row planOf f row).ex.t0 = f.ex.t0.or (times [row]).head? := by
  rw [Feed.row]
  by_cases known : 0 ≤ row.cycles
  · have time : times [row] = [row.cycles] := List.filter_cons_of_pos (decide_eq_true known)
    have other : row.kind ≠ .gap := fun isGap => absurd (gap isGap) (not_lt.mpr known)
    have started : (f.countEvent.started row.cycles).ex.t0 = f.ex.t0.or (some row.cycles) := by
      rw [Feed.started]
      change (if f.ex.t0 = none ∧ 0 ≤ row.cycles then _ else f.countEvent).ex.t0 = _
      split_ifs with first
      · rw [first.1]
        exact (Feed.begin_core _ _).2
      · obtain ⟨z, zero⟩ := Option.ne_none_iff_exists'.mp fun none => first ⟨none, known⟩
        rw [zero]
        exact zero
    rw [if_neg other, time]
    dsimp only
    split_ifs with lost untimed
    · exact started
    · exact started
    · exact (Feed.addsAt_timed planOf (f.countEvent.started row.cycles) row).clock.t0.trans started
  · have time : times [row] = [] := List.filter_cons_of_neg (by simpa using known)
    have unstarted : f.countEvent.started row.cycles = f.countEvent := by
      rw [Feed.started, if_neg fun first => known first.2]
    rw [time, unstarted, List.head?_nil, Option.or_none]
    dsimp only
    split_ifs with isGap lost untimed
    · rfl
    · rfl
    · rfl
    · exact absurd (not_le.mp known) untimed

theorem times_head_append (first second : List Row) :
    (times (first ++ second)).head? = (times first).head?.or (times second).head? := by
  rw [Decode.times_append, List.head?_append]

theorem feedRows_t0
    (ex : Extractor floats)
    (gaps : GapsUntimed rows) : (ex.feedRows rows).t0 = ex.t0.or (times rows).head? := by
  have fold (rows : List Row) (gaps : GapsUntimed rows) (f : Feed floats) :
      (rows.foldl (Feed.row ex.plan) f).ex.t0 = f.ex.t0.or (times rows).head? := by
    induction rows generalizing f with
    | nil => exact (Option.or_none).symm
    | cons row rest inductionHypothesis =>
        change GapsUntimed ([row] ++ rest) at gaps
        have split : times (row :: rest) = times [row] ++ times rest :=
          Decode.times_append [row] rest
        rw [List.foldl_cons, inductionHypothesis gaps.split.2,
          row_t0 _ _ _ (gaps.split.1 row List.mem_cons_self), split, List.head?_append,
          Option.or_assoc]
  exact fold rows gaps ex.feed

theorem foldl_feedRows_t0
    (batches : List (List Row))
    (gaps : GapsUntimed batches.flatten)
    (ex : Extractor floats) :
    (batches.foldl Extractor.feedRows ex).t0 = ex.t0.or (times batches.flatten).head? := by
  induction batches generalizing ex with
  | nil => exact (Option.or_none).symm
  | cons batch rest inductionHypothesis =>
      rw [List.flatten_cons] at gaps ⊢
      rw [List.foldl_cons, inductionHypothesis gaps.split.2, feedRows_t0 ex gaps.split.1,
        times_head_append, Option.or_assoc]

theorem Fed.flushed
    (fed : p.Fed rows)
    {log : EventLog}
    (done : p.log.flush = some log) : { p with log := log }.Fed rows := by
  obtain ⟨gone, split, holds⟩ := fed.kept
  obtain ⟨⟨more, log_split, holds'⟩, -, -⟩ := EventLog.flush_follows holds done
  exact ⟨⟨gone ++ more, by rw [split, log_split, List.append_assoc], holds'⟩, fed.t0_eq⟩

theorem new_t0
    (signals : List Signal)
    (hz : Option floats.Real)
    (config : Option (List (Nat × List Byte)))
    (t0 : Option Int)
    (memory : List (Nat × List Byte))
    (initialT : floats.Real) :
    (Extractor.new signals (.empty floats) hz config t0 memory initialT).t0 = t0 := by
  rw [Extractor.new_eq]
  exact (Feed.initialSamples_core _).2

theorem Fed.step
    (fed : p.Fed rows)
    (request : Request)
    (gaps : GapsUntimed (rows ++ request.rows))
    (done : p.step request = some p') :
    p'.Fed (rows ++ request.rows) ∧ p'.hz = p.hz ∧ p'.config = p.config := by
  cases request with
  | records more =>
      have done : p.recordsIn more = some p' := done
      rw [Pipeline.recordsIn] at done
      change p'.Fed (rows ++ more) ∧ _
      split_ifs at done with none
      · obtain rfl := Option.some.inj done
        rw [none, List.append_nil]
        exact ⟨fed, rfl, rfl⟩
      · obtain ⟨log, added, rfl⟩ := Option.map_eq_some_iff.mp done
        obtain ⟨gone, split, holds⟩ := fed.kept
        obtain ⟨⟨dropped, log_split, holds'⟩, -⟩ := EventLog.addRows_follows holds added
        refine ⟨⟨⟨gone ++ dropped, ?_, holds'⟩, ?_⟩, rfl, rfl⟩
        · rw [split, List.append_assoc, List.append_assoc, ← log_split]
        · rw [times_head_append, ← fed.t0_eq]
          exact feedRows_t0 _ gaps.split.2
  | reselect signals =>
      have same : rows ++ (Request.reselect signals).rows = rows := List.append_nil rows
      rw [same] at gaps ⊢
      obtain rfl := Option.some.inj done
      cases outcome : p.reselect signals with
      | none => exact ⟨fed, rfl, rfl⟩
      | some p' =>
          obtain ⟨log, flush, rfl⟩ := Option.map_eq_some_iff.mp outcome
          obtain ⟨⟨gone, split, holds⟩, -⟩ := fed.flushed flush
          obtain ⟨-, -, idle⟩ := EventLog.flush_follows (Classical.choose_spec fed.kept).2 flush
          refine ⟨⟨⟨gone, split, holds⟩, ?_⟩, rfl, rfl⟩
          have raw : log.rawRows.flatten = log.rows := EventLog.rawRows_flatten idle
          have split : rows = gone ++ log.rows := split
          have kept_gaps : GapsUntimed log.rawRows.flatten := raw.symm ▸ (split ▸ gaps).split.2
          refine (foldl_feedRows_t0 _ kept_gaps _).trans ?_
          rw [new_t0, raw, fed.t0_eq, split, times_head_append, Option.or_assoc, Option.or_self]
  | query =>
      have same : rows ++ Request.query.rows = rows := List.append_nil rows
      rw [same]
      obtain rfl := Option.some.inj done
      cases outcome : p.log.flush with
      | none => exact ⟨fed, rfl, rfl⟩
      | some log => exact ⟨fed.flushed outcome, rfl, rfl⟩

theorem Fed.run
    {requests : List Request}
    (fed : p.Fed rows)
    (gaps : GapsUntimed (rows ++ history requests))
    (done : p.run requests = some p') :
    p'.Fed (rows ++ history requests) ∧ p'.hz = p.hz ∧ p'.config = p.config := by
  induction requests generalizing p rows with
  | nil =>
      obtain rfl := Option.some.inj done
      exact ⟨(List.append_nil rows).symm ▸ fed, rfl, rfl⟩
  | cons request rest inductionHypothesis =>
      obtain ⟨next, first, later⟩ := Option.bind_eq_some_iff.mp done
      have split : rows ++ history (request :: rest) = (rows ++ request.rows) ++ history rest :=
        (List.append_assoc _ _ _).symm
      rw [split] at gaps ⊢
      obtain ⟨fed', hz, config⟩ := fed.step request gaps.split.1 first
      obtain ⟨fed'', hz', config'⟩ := inductionHypothesis fed' gaps later
      exact ⟨fed'', hz'.trans hz, config'.trans config⟩

end Pipeline

/-! ## What a new extractor starts with -/

namespace Extractor

/-- The ranges of a selection, without a known byte. -/
def blankShadow (signals : List Signal) : Shadow :=
  signals.foldl (fun shadow s => shadow.cover s.addr s.stop) []

theorem blankShadow_only (signals : List Signal) :
    (blankShadow signals).Only signals ∧ (blankShadow signals).Unknown := by
  have fold (some all : List Signal) (subset : some ⊆ all) (shadow : Shadow)
      (only : shadow.Only all) (unknown : shadow.Unknown) :
      (some.foldl (fun shadow s => shadow.cover s.addr s.stop) shadow).Only all ∧
        (some.foldl (fun shadow s => shadow.cover s.addr s.stop) shadow).Unknown := by
    induction some generalizing shadow with
    | nil => exact ⟨only, unknown⟩
    | cons s rest inductionHypothesis =>
        exact inductionHypothesis (List.Subset.trans (List.subset_cons_self _ _) subset) _
          (only.cover (subset List.mem_cons_self)) (unknown.cover _ _)
  exact fold signals signals (List.Subset.refl _) [] nofun nofun

/-- The hit signals, by their slots. -/
theorem foldl_insert_hits
    (signals : List Signal)
    (hits : AList fun _ : Nat => Signal)
    (slot : Nat) (s : Signal)
    (found : (signals.foldl (fun hits s => hits.insert s.slot s) hits).lookup slot = some s) :
    (s ∈ signals ∧ s.slot = slot) ∨ hits.lookup slot = some s := by
  induction signals generalizing hits with
  | nil => exact Or.inr found
  | cons first rest inductionHypothesis =>
      rcases inductionHypothesis _ found with ⟨member, own⟩ | earlier
      · exact Or.inl ⟨List.mem_cons_of_mem _ member, own⟩
      · by_cases same : slot = first.slot
        · rw [same, AList.lookup_insert] at earlier
          obtain rfl := Option.some.inj earlier
          exact Or.inl ⟨List.mem_cons_self, same.symm⟩
        · rw [AList.lookup_insert_ne same] at earlier
          exact Or.inr earlier

variable {signals : List Signal} {limit initialT : floats.Real}

/-- With time zero known, an extractor starts with the memory that it is given, and a
sample of every signal that the memory has. -/
theorem new_tracks
    (distinct : (signals.map Signal.id).Nodup)
    (hz : Option floats.Real)
    (config : Option (List (Nat × List Byte)))
    (z : Int)
    (memory : List (Nat × List Byte))
    (initial : floats.upTo initialT limit) :
    let ex := (Extractor.new signals (.empty floats) hz config (some z) memory initialT).feed.view
    Tracks limit ex ∧ Selects signals ex ∧ (ex.values.map Signal.id).Nodup ∧
      SameSelection (knowing signals (.empty floats) hz (some z) floats.zero []) ex ∧
      ex.shadow = (blankShadow (valuesOf signals)).put
        (lastWrite (EventLog.runBytes (config.getD [] ++ memory))) := by
  intro ex
  have new_is := new_eq signals (.empty floats) hz (some z) initialT config memory
  set known := config.getD [] ++ memory
  set start := knowing signals (.empty floats) hz (some z) initialT known with start_def
  have perm : start.values.Perm (valuesOf signals) := List.perm_insertionSort _ _
  obtain ⟨only, unknown⟩ := blankShadow_only (valuesOf signals)
  have shadow : start.shadow = (blankShadow (valuesOf signals)).put
      (lastWrite (EventLog.runBytes known)) := Shadow.foldl_write_eq_put _ _
  have values_distinct : (start.values.map Signal.id).Nodup := by
    rw [(perm.map _).nodup_iff]
    exact distinct.sublist (List.filter_sublist.map _)
  have selects : Selects signals start := by
    refine ⟨fun s => perm.mem_iff, perm.length_eq, fun slot s found => ?_, ?_⟩
    · rcases foldl_insert_hits _ _ slot s found with ⟨member, own⟩ | none
      · obtain ⟨selected, kind⟩ := List.mem_filter.mp member
        exact ⟨selected, of_decide_eq_true kind, own⟩
      · cases none
    · rw [shadow]
      intro range member addr low high
      obtain ⟨s, inside, hit⟩ := only.put _ range member addr low high
      exact ⟨s, perm.mem_iff.mpr inside, hit⟩
  have tracks : Tracks limit start.initialSamples := by
    by_cases seeded : start.seeded = true
    · rw [initialSamples_eq seeded (Option.some_ne_none z)]
      exact Tracks.sampled (fun _ _ none => absurd none List.not_mem_nil) (fun _ _ => rfl)
        values_distinct (List.Sublist.refl _) initial (fun _ _ _ => rfl)
        fun s member missed => absurd member missed
    · have none : known = [] := by
        by_contra some
        exact seeded (decide_eq_true some)
      have unseeded : start.initialSamples = start := by
        unfold initialSamples
        rw [if_pos]
        left
        rw [Bool.not_eq_true] at seeded
        rw [seeded]
        rfl
      rw [unseeded]
      refine ⟨fun _ _ none => absurd none List.not_mem_nil, fun s member => ?_, fun _ _ => rfl⟩
      have unread : start.shadow.read s.addr s.size = Option.none := by
        rw [start_def, none]
        exact unknown.read (of_decide_eq_true (List.mem_filter.mp (perm.mem_iff.mp member)).2).2 _
      rw [current, unread]
      rfl
  obtain ⟨core, -⟩ := Feed.initialSamples_core start
  have selection : start.initialSamples.hits = start.hits := by
    unfold initialSamples
    split_ifs
    · rfl
    · have hits (signals : List Signal) (ex : Extractor floats) :
          (signals.foldl initialSample ex).hits = ex.hits := by
        induction signals generalizing ex with
        | nil => rfl
        | cons s rest inductionHypothesis =>
            refine (inductionHypothesis _).trans ?_
            rw [initialSample]
            cases (ex.shadow.read s.addr s.size).bind (s.decode floats) <;> rfl
      exact hits _ _
  have ex_store : ex.store = start.initialSamples.store := by
    rw [← new_is]
    exact (seen_eq _).1
  have ex_shadow : ex.shadow = start.shadow := by
    have pending : (Extractor.new signals (.empty floats) hz config (some z) memory
        initialT).exactPending = ∅ := by
      rw [new_is]
      exact core.exactPending
    rw [(seen_eq _).2.2 pending, new_is, core.shadow]
  have ex_values : ex.values = start.values := (congrArg Extractor.values new_is).trans core.values
  have ex_hits : ex.hits = start.hits := (congrArg Extractor.hits new_is).trans selection
  have clock := (initialSamples_series start).1
  have same : SameSelection (knowing signals (.empty floats) hz (some z) floats.zero []) ex :=
    ⟨ex_values, ex_hits, (congrArg Extractor.hz new_is).trans clock.hz,
      (congrArg Extractor.t0 new_is).trans clock.t0⟩
  refine ⟨?_, ⟨?_, ?_, ?_, ?_⟩, ?_, same, ex_shadow.trans shadow⟩
  · exact tracks.same (ex_values.trans core.values.symm) (ex_shadow.trans core.shadow.symm)
      (congrArg SignalStore.series ex_store)
  · rw [ex_values]
    exact selects.values
  · rw [ex_values]
    exact selects.length
  · rw [ex_hits]
    exact selects.hits
  · rw [ex_values, ex_shadow]
    exact selects.only
  · rw [ex_values]
    exact values_distinct

/-! ## Dropped rows -/

variable {ex : Extractor floats} {row : Row} {z : Int}

theorem toBytes_eq_map (count value : Nat) :
    toBytes count value = (List.range count).map (byteOf value) := by
  induction count generalizing value with
  | zero => rfl
  | succ count inductionHypothesis =>
      have later : (byteOf (value / 256)) = fun index => byteOf value (index + 1) := by
        funext index
        rw [byteOf, byteOf, Nat.shiftRight_eq_div_pow, Nat.shiftRight_eq_div_pow,
          Nat.div_div_eq_div_mul, Nat.mul_add, Nat.pow_add, Nat.mul_comm]
      rw [toBytes, inductionHypothesis, List.range_succ_eq_map, List.map_cons, List.map_map, later]
      rfl

theorem storedBytes_eq (access : IsAccess row) (addressed : 0 ≤ row.addr) (valued : 0 ≤ row.value) :
    storedBytes row =
      writesFrom (row.addr.toNat + ·) 0 (toBytes (accessSize row) row.value.toNat) := by
  rw [storedBytes, if_pos ⟨access, addressed, valued⟩, writesFrom_eq_zip, toBytes_length,
    toBytes_eq_map, ← List.range_eq_range', List.zip_map']
  rfl

/-- What a represented row stores is what it leaves in the memory. -/
theorem take_represented
    (tracks : Tracks limit ex)
    (selects : Selects signals ex)
    (distinct : (ex.values.map Signal.id).Nodup)
    (begun : ex.t0 ≠ none)
    (represented : Represented signals row)
    (at_t : 0 ≤ row.cycles → floats.upTo (ex.seconds row.cycles) limit) :
    Tracks limit (ex.take row) ∧ Selects signals (ex.take row) ∧
      (ex.take row).shadow = ex.shadow.put (lastWrite (storedBytes row)) := by
  have plain (timed : 0 ≤ row.cycles) : Plain signals row := by
    rw [Represented, if_pos timed] at represented
    exact represented
  obtain ⟨tracks', selects', stored, kept⟩ := tracks.take selects distinct begun plain at_t
  refine ⟨tracks', selects', ?_⟩
  by_cases both : 0 ≤ row.cycles ∧ Touches signals row
  · obtain ⟨access, addressed, -⟩ := both.2
    rw [stored both, storedBytes_eq access addressed ((plain both.1).stores both.2),
      Shadow.write_eq_put]
  · rw [kept both]
    symm
    by_cases touches : Touches signals row
    · have untimed : ¬0 ≤ row.cycles := fun timed => both ⟨timed, touches⟩
      rw [Represented, if_neg untimed] at represented
      have nothing : storedBytes row = [] := by
        rw [storedBytes, if_neg]
        exact fun stored => absurd (represented touches) (not_lt.mpr stored.2.2)
      rw [nothing]
      exact selects.only.put_outside fun _ _ _ _ _ => rfl
    · apply selects.only.put_outside
      intro s member addr low high
      by_cases valued : (row.kind = .write ∨ row.kind = .read) ∧ 0 ≤ row.addr ∧ 0 ≤ row.value
      · obtain ⟨access, addressed, valued⟩ := valued
        rw [storedBytes_eq access addressed valued, Range.lastWrite_run]
        split_ifs with from_start
        · rw [List.getElem?_eq_none]
          rw [toBytes_length]
          by_contra inside
          refine touches ⟨access, addressed, s, (selects.values s).mp member, ?_, ?_⟩
          · omega
          · omega
        · rfl
      · rw [storedBytes, if_neg valued]
        rfl

/-- Rows that are represented leave the memory that the log keeps of them. -/
theorem foldl_take_represented
    {rows : List Row}
    (tracks : Tracks limit ex)
    (selects : Selects signals ex)
    (distinct : (ex.values.map Signal.id).Nodup)
    (zero : ex.t0 = some z)
    (represented : ∀ row ∈ rows, Represented signals row)
    (at_t : ∀ row ∈ rows, 0 ≤ row.cycles →
      floats.upTo (floats.secs ex.hz (row.cycles - z)) limit) :
    Tracks limit (rows.foldl take ex) ∧ Selects signals (rows.foldl take ex) ∧
      SameSelection ex (rows.foldl take ex) ∧
        (rows.foldl take ex).shadow = ex.shadow.put (lastWrite (rows.flatMap storedBytes)) := by
  induction rows generalizing ex with
  | nil =>
      exact ⟨tracks, selects, SameSelection.refl ex,
        (selects.only.put_outside fun _ _ _ _ _ => rfl).symm⟩
  | cons row rest inductionHypothesis =>
      have begun : ex.t0 ≠ none := zero ▸ Option.some_ne_none z
      obtain ⟨tracks', selects', shadow⟩ := take_represented tracks selects distinct begun
        (represented row List.mem_cons_self)
        fun timed => seconds_eq zero _ ▸ at_t row List.mem_cons_self timed
      have selection := take_selection begun row
      obtain ⟨tracks'', selects'', selection', shadow'⟩ := inductionHypothesis tracks' selects'
        (selection.values.symm ▸ distinct) (selection.t0.trans zero)
        (fun other member => represented other (List.mem_cons_of_mem _ member))
        (selection.hz.symm ▸ fun other member => at_t other (List.mem_cons_of_mem _ member))
      refine ⟨tracks'', selects'', selection.trans selection', ?_⟩
      rw [List.foldl_cons, shadow', shadow, Shadow.put_put, List.flatMap_cons]
      congr 1
      funext addr
      rw [lastWrite_append]

/-- Idle rows leave the memory alone. -/
theorem foldl_take_idle
    {rows : List Row}
    (tracks : Tracks limit ex)
    (selects : Selects signals ex)
    (distinct : (ex.values.map Signal.id).Nodup)
    (zero : ex.t0 = some z)
    (idle : ∀ row ∈ rows, Idle signals row)
    (at_t : ∀ row ∈ rows, 0 ≤ row.cycles →
      floats.upTo (floats.secs ex.hz (row.cycles - z)) limit) :
    Tracks limit (rows.foldl take ex) ∧ SameSelection ex (rows.foldl take ex) ∧
      (rows.foldl take ex).shadow = ex.shadow := by
  induction rows generalizing ex with
  | nil => exact ⟨tracks, SameSelection.refl ex, rfl⟩
  | cons row rest inductionHypothesis =>
      have begun : ex.t0 ≠ none := zero ▸ Option.some_ne_none z
      obtain ⟨tracks', selects', -, kept⟩ := tracks.take selects distinct begun
        (fun timed => (idle row List.mem_cons_self timed).1)
        fun timed => seconds_eq zero _ ▸ at_t row List.mem_cons_self timed
      have shadow := kept fun both => (idle row List.mem_cons_self both.1).2 both.2
      have selection := take_selection begun row
      obtain ⟨tracks'', selection', shadow'⟩ := inductionHypothesis tracks' selects'
        (selection.values.symm ▸ distinct) (selection.t0.trans zero)
        (fun other member => idle other (List.mem_cons_of_mem _ member))
        (selection.hz.symm ▸ fun other member => at_t other (List.mem_cons_of_mem _ member))
      exact ⟨tracks'', selection.trans selection', shadow'.trans shadow⟩

/-- The samples of a new extractor that is fed rows, in whatever batches. -/
theorem new_fed
    (signals : List Signal)
    (hz : Option floats.Real)
    (config : Option (List (Nat × List Byte)))
    (t0 : Option Int)
    (memory : List (Nat × List Byte))
    (initialT : floats.Real)
    (batches : List (List Row))
    (fits : ∀ row ∈ batches.flatten, row.Fits) :
    let ex := Extractor.new signals (.empty floats) hz config t0 memory initialT
    (batches.foldl feedRows ex).store = (batches.flatten.foldl take ex.feed.view).store := by
  intro ex
  obtain ⟨ready, plans⟩ := new_ready signals (.empty floats) hz config t0 memory initialT
  have sound := ready.sound plans (right_plan ready.selected)
  have same := foldl_feedRows plan (fun _ _ => plan_congr) sound batches fits
  obtain ⟨view, -⟩ := foldl_feedRowsBy sound batches fits
  rw [← same] at view
  rw [← view]
  exact (seen_eq _).1.symm

end Extractor

/-! ## The agreement -/

/-- From alike last samples on, the held values are alike. -/
theorem Tracks.held
    {ex ex' : Extractor floats}
    {limit time : floats.Real}
    (tracks : Tracks limit ex)
    (tracks' : Tracks limit ex')
    (values : ex'.values = ex.values)
    (hits : ex'.hits = ex.hits)
    (hz : ex'.hz = ex.hz)
    (t0 : ex'.t0 = ex.t0)
    (shadow : ex'.shadow = ex.shadow)
    (begun : ex.t0 ≠ none)
    (rows : List Row)
    (later : ∀ t, floats.upTo t limit → floats.upTo t time)
    (sid : String) :
    heldAt ((rows.foldl Extractor.take ex).store.series sid) time =
      heldAt ((rows.foldl Extractor.take ex').store.series sid) time := by
  obtain ⟨more, series⟩ :=
    ((Parallel.start values hits hz t0 shadow).foldl_take begun rows).series
  obtain ⟨first, second⟩ := series sid
  rw [first, second, heldAt_append, heldAt_append]
  congr 1
  rw [heldAt_eq fun sample member => later _ (tracks.past sid sample member),
    heldAt_eq fun sample member => later _ (tracks'.past sid sample member)]
  by_cases selected : sid ∈ ex.values.map Signal.id
  · obtain ⟨s, member, rfl⟩ := List.mem_map.mp selected
    rw [tracks.last s member, tracks'.last s (values.symm ▸ member), Extractor.current,
      Extractor.current, shadow]
  · rw [tracks.others sid selected, tracks'.others sid (values.symm ▸ selected)]

namespace Pipeline

variable {p : Pipeline floats} {rows : List Row} {signals : List Signal}

/-- Time zero is no later than the first event kept, where that is no earlier than what is
gone. -/
theorem Fed.zero_le
    {gone : List Row}
    {log : EventLog}
    (fed : p.Fed rows)
    (whole : rows = gone ++ log.rows)
    (idle : log.pending = [])
    (zero : p.extractor.t0 = some z)
    (first_eq : log.firstCycles = some first)
    (earlier : ∀ row ∈ gone, row.cycles ≤ first) : z ≤ first := by
  have head := fed.t0_eq
  rw [zero, whole, times_head_append, ← firstCycles_eq idle, first_eq] at head
  cases gone_head : (times gone).head? with
  | none =>
      rw [gone_head] at head
      exact (Option.some.inj head).le
  | some time =>
      rw [gone_head] at head
      obtain rfl := Option.some.inj head
      obtain ⟨inside, -⟩ := List.mem_filter.mp (List.mem_of_mem_head? gone_head)
      obtain ⟨row, member, rfl⟩ := List.mem_map.mp inside
      exact earlier row member

/-- Reselecting gives the held values of a selection from the start. -/
theorem Fed.agrees
    (fed : p.Fed rows)
    (ordered : floats.Ordered p.hz)
    (sound : ∀ row ∈ rows, row.Sound)
    (can : p.CanReselect signals rows) : p.Agrees signals rows := by
  obtain ⟨flushed, flush, condition⟩ := can
  obtain ⟨gone, split, holds⟩ := fed.kept
  obtain ⟨⟨more, log_split, holds'⟩, -, idle⟩ := EventLog.flush_follows holds flush
  have whole : rows = (gone ++ more) ++ flushed.rows := by rw [split, log_split, List.append_assoc]
  have raw : flushed.rawRows.flatten = flushed.rows := EventLog.rawRows_flatten idle
  have fits : ∀ row ∈ rows, row.Fits := fun row member => (sound row member).1
  have kept_fits : ∀ row ∈ flushed.rawRows.flatten, row.Fits := by
    rw [raw]
    exact fun row member => fits row (whole ▸ List.mem_append_right _ member)
  set memory := if p.log.dropped ≠ 0 then p.log.memory else [] with memory_def
  set initialT := if p.log.dropped ≠ 0 then p.initialT flushed else floats.zero with initialT_def
  refine ⟨_, by rw [reselect, flush]; rfl, fun first z first_eq zero time later sid => ?_⟩
  have first_eq : flushed.firstCycles = some first := first_eq
  -- Both series, row by row.
  have new_series := Extractor.new_fed signals p.hz p.config p.extractor.t0 memory initialT
    flushed.rawRows kept_fits
  have old_series := Extractor.new_fed signals p.hz p.config p.extractor.t0 [] floats.zero
    [rows] (by rw [List.flatten_singleton]; exact fits)
  rw [raw] at new_series
  rw [List.flatten_singleton] at old_series
  have new_series := congrFun (congrArg SignalStore.series new_series) sid
  have old_series := congrFun (congrArg SignalStore.series old_series) sid
  change heldAt ((p.reselected signals flushed).store.series sid) time = _
  have reselected_eq : (p.reselected signals flushed).store.series sid = _ := new_series
  have fromStart_eq : (p.fromStart signals rows).store.series sid = _ := old_series
  rw [reselected_eq, fromStart_eq]
  rcases condition with nothing | ⟨distinct, represented, unheard, earlier⟩
  · have none : gone ++ more = [] := by
      rw [← List.length_eq_zero_iff, ← holds'.dropped_eq, nothing]
    have undropped : ¬p.log.dropped ≠ 0 := by
      rw [holds.dropped_eq, (List.append_eq_nil_iff.mp none).1, not_not]
      rfl
    rw [memory_def, initialT_def, if_neg undropped, if_neg undropped, whole, none]
    rfl
  -- What is gone, before the flush and in it.
  have gone_eq : rows.take p.log.dropped = gone := by
    rw [split, holds.dropped_eq, List.take_left]
  have all_eq : rows.take flushed.dropped = gone ++ more := by
    rw [whole, holds'.dropped_eq, List.take_left]
  rw [gone_eq] at represented
  rw [all_eq, holds.dropped_eq, List.drop_left] at unheard
  rw [all_eq] at earlier
  have earlier := earlier first first_eq
  have z_le : z ≤ first := fed.zero_le whole idle zero first_eq earlier
  set limit := floats.secs p.hz (first - z) with limit_def
  have rising (cycles : Int) (le : cycles ≤ first) :
      floats.upTo (floats.secs p.hz (cycles - z)) limit := ordered.secs_mono (by omega)
  have zero_time : floats.upTo floats.zero limit := by
    rw [← ordered.secs_zero, ← Int.sub_self z]
    exact rising z z_le
  have initial : floats.upTo initialT limit := by
    rw [initialT_def]
    split_ifs
    · rw [Pipeline.initialT, first_eq, zero]
      exact rising first (le_refl _)
    · exact zero_time
  rw [zero]
  obtain ⟨new_tracks, -, -, new_same, new_shadow⟩ :=
    Extractor.new_tracks distinct p.hz p.config z memory initial
  obtain ⟨old_tracks, old_selects, old_distinct, old_same, old_shadow⟩ :=
    Extractor.new_tracks distinct p.hz p.config z [] zero_time
  rw [whole, List.foldl_append, List.foldl_append]
  set fresh := (Extractor.new signals (.empty floats) p.hz p.config (some z) memory
    initialT).feed.view
  set old := (Extractor.new signals (.empty floats) p.hz p.config (some z) []
    floats.zero).feed.view
  have past (row : Row) (member : row ∈ gone ++ more) (_ : 0 ≤ row.cycles) :
      floats.upTo (floats.secs old.hz (row.cycles - z)) limit :=
    old_same.hz.symm ▸ rising _ (earlier row member)
  obtain ⟨gone_tracks, gone_selects, gone_same, gone_shadow⟩ :=
    Extractor.foldl_take_represented old_tracks old_selects old_distinct old_same.t0 represented
      fun row member => past row (List.mem_append_left _ member)
  have gone_distinct : ((gone.foldl Extractor.take old).values.map Signal.id).Nodup :=
    gone_same.values.symm ▸ old_distinct
  obtain ⟨more_tracks, more_same, more_shadow⟩ :=
    Extractor.foldl_take_idle gone_tracks gone_selects gone_distinct
      (gone_same.t0.trans old_same.t0) unheard
      (gone_same.hz.symm ▸ fun row member => past row (List.mem_append_right _ member))
  set dropped := more.foldl Extractor.take (gone.foldl Extractor.take old)
  have dropped_same := (old_same.trans gone_same).trans more_same
  have shadow : dropped.shadow = fresh.shadow := by
    rw [more_shadow, gone_shadow, old_shadow, new_shadow, Shadow.put_put, List.append_nil]
    congr 1
    funext addr
    rw [EventLog.runBytes_append, lastWrite_append]
    congr 1
    rw [memory_def, ← holds.base_eq]
    split_ifs with dropped
    · exact (EventLog.lastWrite_memory _ _).symm
    · rw [holds.base_eq]
      rw [not_not, holds.dropped_eq, List.length_eq_zero_iff] at dropped
      rw [dropped]
      rfl
  exact new_tracks.held more_tracks (dropped_same.values.trans new_same.values.symm)
    (dropped_same.hits.trans new_same.hits.symm) (dropped_same.hz.trans new_same.hz.symm)
    (dropped_same.t0.trans new_same.t0.symm) shadow
    (new_same.t0.symm ▸ Option.some_ne_none z) flushed.rows
    (fun sample_time le => ordered.trans le later) sid

theorem not_agrees
    (first z : Int)
    (time : floats.Real)
    (sid : String)
    (done : (p.reselect signals).isSome)
    (first_eq : ((p.reselect signals).get done).log.firstCycles = some first)
    (zero : p.extractor.t0 = some z)
    (later : floats.upTo (floats.secs p.hz (first - z)) time)
    (differs : heldAt (((p.reselect signals).get done).extractor.store.series sid) time ≠
      heldAt ((p.fromStart signals rows).store.series sid) time) : ¬p.Agrees signals rows := by
  rintro ⟨p', found, agree⟩
  have same : (p.reselect signals).get done = p' := by simp [found]
  rw [same] at first_eq differs
  exact differs (agree first z first_eq zero time later sid)

end Pipeline

/-- In every run of a pipeline, a new selection that can do without the rows that the log
has dropped gets the held values that it would have had from the start. -/
theorem reselect_agrees
    {hz : Option floats.Real}
    (ordered : floats.Ordered hz)
    (config : Option (List (Nat × List Byte)))
    (signals : List Signal)
    (logLimit : Nat)
    {requests : List Request}
    {p : Pipeline floats}
    (sound : ∀ row ∈ history requests, row.Sound)
    (ran : (Pipeline.new hz config signals logLimit).run requests = some p)
    (selection : List Signal)
    (can : p.CanReselect selection (history requests)) : p.Agrees selection (history requests) := by
  have gaps : GapsUntimed ([] ++ history requests) := by
    intro row member isGap
    rw [(sound row member).2 isGap]
    decide
  have new : (Pipeline.new hz config signals logLimit).Fed [] :=
    ⟨⟨[], rfl, EventLog.holds_empty logLimit⟩, Pipeline.new_t0 _ _ _ _ _ _⟩
  obtain ⟨fed, hz_eq, -⟩ := new.run gaps ran
  exact fed.agrees (hz_eq.symm ▸ ordered) sound can

/-- With a log of one event, a row, its chunk, another row and its chunk: the first row is
dropped. -/
def droppedRow (row : Row) : List Request :=
  [.records [row], .query, .records [⟨20, .evc, -1, -1, 0, 0, 1, "WTU", -1⟩], .query]

/-- A pipeline with a log of one event, and no signals yet. -/
def smallPipeline (requests : List Request) : Pipeline wholeNumbers :=
  ((Pipeline.new none none [] 1).run requests).getD (.new none none [] 1)

/-- A hit, an access without its value, a value without its address and an access before
the first time stamp, each dropped: the new selection has no hit, no unknown value and no
value, and has the value that a selection from the start had not. -/
theorem reselect_differs :
    let hit : Row := ⟨10, .wps, -1, -1, 0, 5, -1, "WTU", -1⟩
    let addressOnly : Row := ⟨10, .write, 0x100, -1, 4, -1, -1, "DTU0", -1⟩
    let dataOnly : Row := ⟨10, .write, -1, 7, 4, -1, -1, "DTU0", -1⟩
    let untimed : Row := ⟨-1, .write, 0x100, 7, 4, -1, -1, "DTU0", -1⟩
    let hits := [hitsSignal "hits:5" 5]
    let word := [rawSignal "raw:0x00000100:4" 0x100 4 false]
    ¬(smallPipeline (droppedRow hit)).Agrees hits (history (droppedRow hit)) ∧
      ¬(smallPipeline (droppedRow addressOnly)).Agrees word (history (droppedRow addressOnly)) ∧
        ¬(smallPipeline (droppedRow dataOnly)).Agrees word (history (droppedRow dataOnly)) ∧
          ¬(smallPipeline (droppedRow untimed)).Agrees word (history (droppedRow untimed)) := by
  intro hit addressOnly dataOnly untimed hits word
  refine ⟨?_, ?_, ?_, ?_⟩
  · exact Pipeline.not_agrees 20 10 10 "hits:5" (by decide +kernel) (by decide +kernel)
      (by decide +kernel) (by decide +kernel) (by decide +kernel)
  · exact Pipeline.not_agrees 20 10 10 "raw:0x00000100:4" (by decide +kernel) (by decide +kernel)
      (by decide +kernel) (by decide +kernel) (by decide +kernel)
  · exact Pipeline.not_agrees 20 10 10 "raw:0x00000100:4" (by decide +kernel) (by decide +kernel)
      (by decide +kernel) (by decide +kernel) (by decide +kernel)
  · exact Pipeline.not_agrees 20 20 0 "raw:0x00000100:4" (by decide +kernel) (by decide +kernel)
      (by decide +kernel) (by decide +kernel) (by decide +kernel)

/-- A store that was dropped is in the memory. -/
theorem reselect_agrees_dropped :
    let store : Row := ⟨10, .write, 0x100, 7, 4, -1, -1, "DTU0", -1⟩
    (smallPipeline (droppedRow store)).Agrees [rawSignal "raw:0x00000100:4" 0x100 4 false]
      (history (droppedRow store)) := by
  intro store
  have done : ((Pipeline.new none none [] 1 : Pipeline wholeNumbers).run
      (droppedRow store)).isSome := by
    decide +kernel
  have ran : (Pipeline.new none none [] 1 : Pipeline wholeNumbers).run (droppedRow store) =
      some (smallPipeline (droppedRow store)) := by
    obtain ⟨p, ran⟩ := Option.isSome_iff_exists.mp done
    rw [smallPipeline, ran]
    rfl
  refine reselect_agrees wholeNumbers_ordered none [] 1 (by decide +kernel) ran _ ?_
  have idle : (smallPipeline (droppedRow store)).log.flush =
      some (smallPipeline (droppedRow store)).log := if_pos (by decide +kernel)
  have dropped : (smallPipeline (droppedRow store)).log.dropped = 1 := by decide +kernel
  have first : (smallPipeline (droppedRow store)).log.firstCycles = some 20 := by decide +kernel
  have gone : (history (droppedRow store)).take 1 = [store] := by decide +kernel
  refine ⟨_, idle, Or.inr ⟨by decide, ?_, ?_, ?_⟩⟩
  · rw [dropped, gone]
    intro row member
    rw [List.mem_singleton.mp member, Represented, if_pos (by decide)]
    refine ⟨fun _ => by decide, fun _ negative => absurd negative (by decide), ?_⟩
    intro s selected hits
    rw [List.mem_singleton.mp selected] at hits
    cases hits
  · rw [dropped, gone]
    exact fun row none => absurd none List.not_mem_nil
  · rw [dropped, gone, first]
    intro cycles found row member
    rw [List.mem_singleton.mp member, ← Option.some.inj found]
    decide

end Signals
end TriCoreDap
