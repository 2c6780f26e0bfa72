import TriCoreDap.Library.Bisect
import TriCoreDap.Library.Splice
import TriCoreDap.Signals.Held
import TriCoreDap.Signals.Sorted

/-!
# What is kept of a series

`Series.drop_before` and `SignalStore.window` search a series by halving.  Its samples
are in order in every run, whether old ones are dropped or not, so the searches find what
they look for, and what is dropped or left out does not change the held values.
-/

namespace TriCoreDap
namespace Signals

variable {floats : Floats}

/-! ## Searches -/

/-- `np.searchsorted(t, x)`: the first place where the time is not less. -/
def searchLeft (series : List (floats.Real × floats.Real)) (x : floats.Real) : Nat :=
  bisectList (fun sample => !floats.later x sample.1) series

/-- `np.searchsorted(t, x, side='right')`: the first place where the time is greater. -/
def searchRight (series : List (floats.Real × floats.Real)) (x : floats.Real) : Nat :=
  bisectList (fun sample => floats.later sample.1 x) series

/-- `Series.drop_before`: what is left, and whether anything went. -/
def dropBefore
    (series : List (floats.Real × floats.Real))
    (tMin : floats.Real) : List (floats.Real × floats.Real) × Bool :=
  let i := searchLeft series tMin - 1
  if 0 < i then (series.drop i, true) else (series, false)

/-- `SignalStore.window`. -/
def SignalStore.window
    (store : SignalStore floats)
    (sid : String)
    (x0 x1 : floats.Real) : List (floats.Real × floats.Real) :=
  let series := store.series sid
  slice series (searchLeft series x0 - 1) (min (searchRight series x1 + 1) series.length)

/-- `value_at`, `none` for the NaN of before the first sample. -/
def valueAt (series : List (floats.Real × floats.Real)) (x : floats.Real) : Option floats.Real :=
  if series.length = 0 then none
  else
    let behind := searchRight series x
    if 1 ≤ behind then (series[behind - 1]?).map Prod.snd else none

/-- `SignalStore.trim`, where `minus` is the difference of floats. -/
def SignalStore.trim
    (minus : floats.Real → floats.Real → floats.Real)
    (store : SignalStore floats)
    (keepSeconds : floats.Real) : SignalStore floats :=
  let cut := minus store.tEnd keepSeconds
  { store with
    series := fun sid => (dropBefore (store.series sid) cut).1
    gaps := store.gaps.filter fun gap => floats.upTo cut gap }

/-- What is used of comparing floats, none of it wrong for NaN. -/
structure Floats.Compares (floats : Floats) : Prop where
  trans : ∀ {a b c}, floats.upTo a b → floats.upTo b c → floats.upTo a c
  upTo_of_later : ∀ {a b}, floats.later b a → floats.upTo a b
  not_later : ∀ {a b}, floats.upTo a b → ¬floats.later a b
  later_of_upTo : ∀ {a b c}, floats.upTo a b → floats.later c b → floats.later c a
  later_trans : ∀ {a b c}, floats.later b a → floats.upTo b c → floats.later c a

example : wholeNumbers.Compares := by
  constructor <;> intros <;> simp only [decide_eq_true_eq] at * <;> omega

variable {series : List (floats.Real × floats.Real)} {sample : floats.Real × floats.Real}
  {x x0 x1 time tMin : floats.Real} {i : Nat}

/-- In a sorted series the left search is behind the samples of before `x`. -/
theorem InOrder.lt_searchLeft
    (inOrder : InOrder series)
    (compares : floats.Compares)
    (found : series[i]? = some sample) : i < searchLeft series x ↔ floats.later x sample.1 := by
  rw [searchLeft, lt_bisectList_iff inOrder _ found, Bool.not_eq_false']
  intro earlier later upTo notBefore
  rw [Bool.not_eq_true', Bool.eq_false_iff] at notBefore ⊢
  exact fun before => notBefore (compares.later_of_upTo upTo before)

/-- The right search is behind those up to `x`. -/
theorem InOrder.lt_searchRight
    (inOrder : InOrder series)
    (compares : floats.Compares)
    (found : series[i]? = some sample) :
    i < searchRight series x ↔ ¬floats.later sample.1 x := by
  rw [searchRight, lt_bisectList_iff inOrder _ found, Bool.eq_false_iff]
  exact fun earlier later upTo behind => compares.later_trans behind upTo

/-! ## Dropping old samples -/

theorem dropBefore_fst (series : List (floats.Real × floats.Real)) (tMin : floats.Real) :
    (dropBefore series tMin).1 = series.drop (searchLeft series tMin - 1) := by
  rw [dropBefore]
  split_ifs with some_go
  · rfl
  · rw [Nat.eq_zero_of_not_pos some_go, List.drop_zero]

theorem InOrder.dropBefore (inOrder : InOrder series) (tMin : floats.Real) :
    InOrder (dropBefore series tMin).1 := by
  rw [dropBefore_fst]
  exact inOrder.sublist (List.drop_sublist _ _)

/-- What goes is older than the limit. -/
theorem InOrder.dropBefore_old
    (inOrder : InOrder series)
    (compares : floats.Compares)
    (tMin : floats.Real) :
    ∃ gone, series = gone ++ (Signals.dropBefore series tMin).1 ∧
      (∀ sample ∈ gone, floats.later tMin sample.1) ∧
      ((Signals.dropBefore series tMin).2 = true ↔ gone ≠ []) := by
  have searched := bisectList_le (fun sample => !floats.later tMin sample.1) series
  change searchLeft series tMin ≤ series.length at searched
  refine ⟨series.take (searchLeft series tMin - 1), ?_, fun sample member => ?_, ?_⟩
  · rw [dropBefore_fst, List.take_append_drop]
  · obtain ⟨i, found⟩ := List.mem_iff_getElem?.mp member
    rw [List.getElem?_take] at found
    split_ifs at found with below
    exact (inOrder.lt_searchLeft compares found).mp (by omega)
  · rw [Signals.dropBefore, ← List.length_pos_iff, List.length_take]
    split_ifs with some_go
    · simp only [true_iff]
      omega
    · simp only [false_iff]
      omega

/-- Samples before one that is past do not matter. -/
theorem heldAt_drop (found : series[i]? = some sample) (past : floats.upTo sample.1 time) :
    heldAt (series.drop i) time = heldAt series time := by
  have member : sample ∈ (series.drop i).filter fun sample => floats.upTo sample.1 time := by
    refine List.mem_filter.mpr ⟨List.mem_iff_getElem?.mpr ⟨0, ?_⟩, past⟩
    rw [List.getElem?_drop, Nat.add_zero, found]
  have held : (heldAt (series.drop i) time).isSome := by
    rw [heldAt, Option.isSome_map, List.getLast?_isSome]
    exact List.ne_nil_of_mem member
  obtain ⟨v, held⟩ := Option.isSome_iff_exists.mp held
  conv_rhs => rw [← List.take_append_drop i series, heldAt_append, held, Option.some_or]
  exact held

/-- Neither do samples that are still to come. -/
theorem heldAt_take (ahead : ∀ sample ∈ series.drop i, ¬floats.upTo sample.1 time) :
    heldAt (series.take i) time = heldAt series time := by
  have none : heldAt (series.drop i) time = none := by
    rw [heldAt, List.filter_eq_nil_iff.mpr ahead]
    rfl
  conv_rhs => rw [← List.take_append_drop i series, heldAt_append, none, Option.none_or]

/-- Behind the left search's place less one, what is held from `x` on stays. -/
theorem heldAt_drop_searchLeft (compares : floats.Compares) (within : floats.upTo x time) :
    heldAt (series.drop (searchLeft series x - 1)) time = heldAt series time := by
  rcases Nat.eq_zero_or_pos (searchLeft series x) with none | some_before
  · rw [none, List.drop_zero]
  · obtain ⟨sample, found, before⟩ := fails_bisectList_pred some_before
    rw [Bool.not_eq_false'] at before
    exact heldAt_drop found (compares.trans (compares.upTo_of_later before) within)

/-- Dropping old samples does not change what is held from the limit on. -/
theorem heldAt_dropBefore (compares : floats.Compares) (within : floats.upTo tMin time) :
    heldAt (dropBefore series tMin).1 time = heldAt series time := by
  rw [dropBefore_fst]
  exact heldAt_drop_searchLeft compares within

example : @dropBefore wholeNumbers [(1, 10), (4, 11), (6, 12), (9, 13)] 7 =
    ([(6, 12), (9, 13)], true) := by
  decide +kernel

/-! ## Windows -/

variable {store : SignalStore floats} {sid : String}

/-- A window has every sample between its ends. -/
theorem mem_window
    (compares : floats.Compares)
    (inOrder : InOrder (store.series sid))
    (member : sample ∈ store.series sid)
    (low : floats.upTo x0 sample.1)
    (high : floats.upTo sample.1 x1) : sample ∈ store.window sid x0 x1 := by
  obtain ⟨i, found⟩ := List.mem_iff_getElem?.mp member
  have inside := (List.getElem?_eq_some_iff.mp found).1
  have behind : ¬i < searchLeft (store.series sid) x0 :=
    fun before => compares.not_later low ((inOrder.lt_searchLeft compares found).mp before)
  have before := (inOrder.lt_searchRight compares found).mpr (compares.not_later high)
  apply List.mem_iff_getElem?.mpr ⟨i - (searchLeft (store.series sid) x0 - 1), _⟩
  have place : searchLeft (store.series sid) x0 - 1 +
      (i - (searchLeft (store.series sid) x0 - 1)) = i := by
    omega
  rw [SignalStore.window, getElem?_slice, if_pos (by omega), place]
  exact found

/-- What a window holds between its ends is what the series holds. -/
theorem heldAt_window
    (compares : floats.Compares)
    (inOrder : InOrder (store.series sid))
    (low : floats.upTo x0 time)
    (high : floats.upTo time x1) :
    heldAt (store.window sid x0 x1) time = heldAt (store.series sid) time := by
  rw [SignalStore.window, slice, heldAt_take, heldAt_drop_searchLeft compares low]
  intro sample member upTo
  obtain ⟨i, found⟩ := List.mem_iff_getElem?.mp member
  rw [List.drop_drop, List.getElem?_drop] at found
  have inside := (List.getElem?_eq_some_iff.mp found).1
  have behind := (inOrder.lt_searchRight (x := x1) compares found).not
  rw [not_not] at behind
  exact compares.not_later (compares.trans upTo high) (behind.mp (by omega))

/-- The value that a sorted series shows at a time is the one held there. -/
theorem valueAt_eq
    (compares : floats.Compares)
    (inOrder : InOrder series)
    (numbers : ∀ sample ∈ series, floats.upTo sample.1 x ∨ floats.later sample.1 x) :
    valueAt series x = heldAt series x := by
  have searched : searchRight series x ≤ series.length := bisectList_le _ _
  have shown : valueAt series x = lastValue (series.take (searchRight series x)) := by
    rw [valueAt, lastValue, List.getLast?_take]
    dsimp only
    rcases Nat.eq_zero_or_pos (searchRight series x) with nothing | behind
    · simp [nothing]
    · have inside : searchRight series x - 1 < series.length := by omega
      have samples : ¬series.length = 0 := by omega
      rw [if_neg samples, if_pos (Nat.succ_le_of_lt behind), if_neg (Nat.ne_of_gt behind),
        List.getElem?_eq_getElem inside, Option.some_or]
  rw [shown, ← heldAt_eq, heldAt_take]
  · intro sample member upTo
    obtain ⟨i, found⟩ := List.mem_iff_getElem?.mp member
    rw [List.getElem?_drop] at found
    have before := (inOrder.lt_searchRight compares found).mpr (compares.not_later upTo)
    omega
  · intro sample member
    obtain ⟨i, found⟩ := List.mem_iff_getElem?.mp member
    rw [List.getElem?_take] at found
    split_ifs at found with before
    have here := (inOrder.lt_searchRight compares found).mp before
    exact (numbers sample (List.mem_of_getElem? found)).resolve_right here

/-! ## Runs -/

open Decode (Row times Decoder Settings Paragraph)

/-- What is asked of a pipeline, or that old samples are dropped. -/
inductive Use (floats : Floats)
  | request (request : Request)
  | trim (keepSeconds : floats.Real)

/-- The rows that it brings. -/
def Use.rows : Use floats → List Row
  | .request asked => asked.rows
  | .trim _ => []

namespace Pipeline

variable {p p' : Pipeline floats} {rows : List Row}
  {minus : floats.Real → floats.Real → floats.Real}

/-- `store.trim(keep_seconds)` of the pipeline's store. -/
def trim
    (minus : floats.Real → floats.Real → floats.Real)
    (p : Pipeline floats)
    (keepSeconds : floats.Real) : Pipeline floats :=
  { p with
    extractor := { p.extractor with store := p.extractor.store.trim minus keepSeconds } }

def use
    (minus : floats.Real → floats.Real → floats.Real)
    (p : Pipeline floats) : Use floats → Option (Pipeline floats)
  | .request asked => p.step asked
  | .trim keepSeconds => some (p.trim minus keepSeconds)

/-- Uses one after the other. -/
def runUses
    (minus : floats.Real → floats.Real → floats.Real) :
    (p : Pipeline floats) → List (Use floats) → Option (Pipeline floats)
  | p, [] => some p
  | p, use :: rest => (p.use minus use).bind fun p => p.runUses minus rest

/-- Fewer samples are in order, too. -/
theorem Timely.trim (timely : p.Timely rows) (keepSeconds : floats.Real) :
    (p.trim minus keepSeconds).Timely rows := by
  obtain ⟨kept, ⟨fresh, begun, inOrder, within⟩, hz_eq⟩ := timely
  have fewer (sid : String) : ((p.trim minus keepSeconds).extractor.feed.series sid).Sublist
      (p.extractor.feed.series sid) := by
    refine List.Sublist.append ?_ (List.Sublist.refl _)
    change List.Sublist (dropBefore _ _).1 _
    rw [dropBefore_fst]
    exact List.drop_sublist _ _
  refine ⟨kept, ⟨fun none => ?_, begun, fun sid => ?_, fun z zero sid sample member => ?_⟩, hz_eq⟩
  · obtain ⟨empty, initial, stored, pend⟩ := fresh none
    refine ⟨empty, initial, funext fun sid => ?_, pend⟩
    have unsampled : p.extractor.store.series sid = [] := congrFun stored sid
    change (dropBefore (p.extractor.store.series sid) _).1 = []
    rw [dropBefore_fst, unsampled, List.drop_nil]
  · exact (inOrder sid).sublist (fewer sid)
  · exact within z zero sid sample ((fewer sid).subset member)

theorem Timely.use
    {use : Use floats}
    (timely : p.Timely rows)
    (ordered : floats.Ordered p.hz)
    (gaps : GapsUntimed (rows ++ use.rows))
    (rising : (times (rows ++ use.rows)).Pairwise (· ≤ ·))
    (done : p.use minus use = some p') : p'.Timely (rows ++ use.rows) ∧ p'.hz = p.hz := by
  cases use with
  | request asked => exact timely.step ordered asked gaps rising done
  | trim keepSeconds =>
      obtain rfl := Option.some.inj done
      have none : rows ++ (Use.trim keepSeconds : Use floats).rows = rows := List.append_nil rows
      exact ⟨none.symm ▸ timely.trim keepSeconds, rfl⟩

theorem Timely.runUses
    {uses : List (Use floats)}
    (timely : p.Timely rows)
    (ordered : floats.Ordered p.hz)
    (gaps : GapsUntimed (rows ++ uses.flatMap Use.rows))
    (rising : (times (rows ++ uses.flatMap Use.rows)).Pairwise (· ≤ ·))
    (done : p.runUses minus uses = some p') : p'.Timely (rows ++ uses.flatMap Use.rows) := by
  induction uses generalizing p rows with
  | nil =>
      obtain rfl := Option.some.inj done
      exact (List.append_nil rows).symm ▸ timely
  | cons use rest inductionHypothesis =>
      obtain ⟨next, first, later⟩ := Option.bind_eq_some_iff.mp done
      rw [List.flatMap_cons, ← List.append_assoc] at gaps rising ⊢
      have first_rising : (times (rows ++ use.rows)).Pairwise (· ≤ ·) := by
        rw [Decode.times_append] at rising
        exact (List.pairwise_append.mp rising).1
      obtain ⟨timely', hz_eq⟩ := timely.use ordered gaps.split.1 first_rising first
      exact inductionHypothesis timely' (hz_eq.symm ▸ ordered) gaps rising later

end Pipeline

/-- Whatever was fed, selected and dropped, the searches of every series part the earlier
samples from the later ones. -/
theorem searches_part
    {settings : Settings}
    (noTicks : settings.tickMode = false)
    (paragraphs : List Paragraph)
    {hz : Option floats.Real}
    (ordered : floats.Ordered hz)
    (compares : floats.Compares)
    (minus : floats.Real → floats.Real → floats.Real)
    (config : Option (List (Nat × List Byte)))
    (signals : List Signal)
    (logLimit : Nat)
    {uses : List (Use floats)}
    {p : Pipeline floats}
    (fed : uses.flatMap Use.rows <+: ((Decoder.new settings).run paragraphs).1.flatten)
    (ran : (Pipeline.new hz config signals logLimit).runUses minus uses = some p)
    (sid : String)
    (x : floats.Real)
    (found : (p.extractor.store.series sid)[i]? = some sample) :
    (i < searchLeft (p.extractor.store.series sid) x ↔ floats.later x sample.1) ∧
      (i < searchRight (p.extractor.store.series sid) x ↔ ¬floats.later sample.1 x) := by
  obtain ⟨gaps, rising⟩ := rising_of_decoded noTicks paragraphs fed
  have timely := (Pipeline.new_timely ordered config signals logLimit).runUses ordered
    gaps rising ran
  have series := timely.extracted.inOrder sid
  rw [Feed.series] at series
  have inOrder : InOrder (p.extractor.store.series sid) :=
    List.append_nil (p.extractor.store.series sid) ▸ series
  exact ⟨inOrder.lt_searchLeft compares found, inOrder.lt_searchRight compares found⟩

end Signals
end TriCoreDap
