import TriCoreDap.Signals.Direct
import Mathlib.Data.List.TakeWhile

/-!
# Stores that are written back later

The exact stores of a batch that are not in the shadow memory yet cover the bytes
of their signals, which no other selected signal shares.  So they can be written
in any order, and a store that touches none of their signals before them.
-/

namespace TriCoreDap
namespace Signals

variable {floats : Floats}

/-- The selected signals in the order of their addresses, none of them empty. -/
structure Selected (values : List Signal) : Prop where
  sorted : values.Pairwise fun s s' => s.addr ≤ s'.addr
  positive : ∀ s ∈ values, 0 < s.size

/-- The bytes are those of a signal, and of every signal that they touch. -/
structure Exactly (values : List Signal) (addr size : Nat) : Prop where
  some : ∃ s ∈ values, s.addr = addr ∧ s.size = size
  only : ∀ s ∈ values, s.addr < addr + size → addr < s.stop → s.addr = addr ∧ s.size = size

/-! ## Signals that a store touches -/

section
variable {ex : Extractor floats} {s : Signal} {addr size lo hi : Nat}

theorem Extractor.le_maxSize (member : s ∈ ex.values) : s.size ≤ ex.maxSize := by
  have grows : ∀ (values : List Signal) (most : Nat),
      most ≤ values.foldl (fun most s => max most s.size) most ∧
        ∀ s ∈ values, s.size ≤ values.foldl (fun most s => max most s.size) most := by
    intro values
    induction values with
    | nil => exact fun most => ⟨le_refl _, nofun⟩
    | cons first rest inductionHypothesis =>
        intro most
        obtain ⟨base, each⟩ := inductionHypothesis (max most first.size)
        refine ⟨(le_max_left _ _).trans base, fun s member => ?_⟩
        rcases List.mem_cons.mp member with rfl | member
        · exact (le_max_right _ _).trans base
        · exact each s member
  exact (grows ex.values 0).2 s member

/-- The search skips signals that end before the store, and ends behind it. -/
theorem Extractor.overlapping_eq
    (sorted : ex.values.Pairwise fun s s' => s.addr ≤ s'.addr)
    (lo hi : Nat) : ex.overlapping lo hi = ex.touched lo hi := by
  have skipped : (ex.values.takeWhile fun s => decide ((s.addr : Int) < lo - ex.maxSize)).filter
      (fun s => decide (s.addr < hi ∧ lo < s.stop)) = [] := by
    rw [List.filter_eq_nil_iff]
    intro s member
    have before := List.mem_takeWhile_imp member
    have small := Extractor.le_maxSize ((List.takeWhile_sublist _).subset member)
    rw [decide_eq_true_eq] at before ⊢
    rintro ⟨-, after⟩
    rw [Signal.stop] at after
    omega
  have rest : ∀ values : List Signal, (values.Pairwise fun s s' => s.addr ≤ s'.addr) →
      (values.takeWhile fun s => decide (s.addr < hi)).filter (fun s => decide (s.stop > lo)) =
        values.filter fun s => decide (s.addr < hi ∧ lo < s.stop) := by
    intro values
    induction values with
    | nil => exact fun _ => rfl
    | cons s others inductionHypothesis =>
        intro pairwise
        obtain ⟨least, pairwise⟩ := List.pairwise_cons.mp pairwise
        by_cases inside : s.addr < hi
        · rw [List.takeWhile_cons_of_pos (by simpa using inside), List.filter_cons,
            List.filter_cons, inductionHypothesis pairwise]
          simp only [inside, true_and]
        · rw [List.takeWhile_cons_of_neg (by simpa using inside)]
          symm
          rw [List.filter_nil, List.filter_eq_nil_iff]
          intro other member
          rw [decide_eq_true_eq]
          rcases List.mem_cons.mp member with rfl | member
          · exact fun hit => inside hit.1
          · exact fun hit => inside ((least other member).trans_lt hit.1)
  rw [overlapping, rest _ (sorted.sublist (List.drop_sublist _ _)), touched, searchsorted]
  set skip := (ex.values.takeWhile fun s => decide ((s.addr : Int) < lo - ex.maxSize)) with skip_def
  have take : ex.values.take skip.length = skip :=
    (List.prefix_iff_eq_take.mp (List.takeWhile_prefix _)).symm
  conv_rhs =>
    rw [← List.take_append_drop skip.length ex.values, List.filter_append, take, skipped,
      List.nil_append]

theorem Extractor.mem_touched :
    s ∈ ex.touched lo hi ↔ s ∈ ex.values ∧ s.addr < hi ∧ lo < s.stop := by
  rw [touched, List.mem_filter, decide_eq_true_eq]

end

/-! ## Stores that are pending -/

/-- A pending store under its key. -/
abbrev Entry := Sigma fun _ : Nat => ExactStore

/-- An entry is the store of a value to exactly the bytes of a signal. -/
structure Entry.Fits (values : List Signal) (entry : Entry) : Prop where
  key : entry.1 = entry.2.addr * 64 + entry.2.size
  small : entry.2.size < 64
  exactly : Exactly values entry.2.addr entry.2.size

/-- The pending stores, written one after the other. -/
def flush (shadow : Shadow) (entries : List Entry) : Shadow :=
  entries.foldl
    (fun shadow entry => shadow.write entry.2.addr (toBytes entry.2.size entry.2.value)) shadow

variable {values : List Signal} {entry other : Entry} {entries : List Entry} {shadow : Shadow}
  {addr size : Nat}

/-- Two ranges have no address in common. -/
def Apart (addr size addr' size' : Nat) : Prop := addr + size ≤ addr' ∨ addr' + size' ≤ addr

/-- A signal that a pending store touches has its key. -/
theorem Entry.Fits.apart_signal
    (fits : entry.Fits values)
    (member : s ∈ values)
    (unlike : entry.1 ≠ s.addr * 64 + s.size) :
    Apart entry.2.addr entry.2.size s.addr s.size := by
  by_contra touching
  rw [Apart, not_or, not_le, not_le] at touching
  obtain ⟨addr_eq, size_eq⟩ := fits.exactly.only s member touching.1 (by
    rw [Signal.stop]
    exact touching.2)
  exact unlike (by rw [fits.key, addr_eq, size_eq])

/-- Stores with different keys are apart. -/
theorem Entry.Fits.apart
    (fits : entry.Fits values)
    (others : other.Fits values)
    (unlike : entry.1 ≠ other.1) :
    Apart entry.2.addr entry.2.size other.2.addr other.2.size := by
  obtain ⟨s, member, addr_eq, size_eq⟩ := others.exactly.some
  rw [← addr_eq, ← size_eq]
  apply fits.apart_signal member
  rw [addr_eq, size_eq, ← others.key]
  exact unlike

theorem flush_append (shadow : Shadow) (entries more : List Entry) :
    flush shadow (entries ++ more) = flush (flush shadow entries) more :=
  List.foldl_append

/-- A store that none of the pending ones touches can be done before them. -/
theorem flush_write
    (raw : List Byte)
    (apart : ∀ entry ∈ entries, Apart entry.2.addr entry.2.size addr raw.length) :
    flush (shadow.write addr raw) entries = (flush shadow entries).write addr raw := by
  induction entries generalizing shadow with
  | nil => rfl
  | cons first rest inductionHypothesis =>
      have swap : (shadow.write addr raw).write first.2.addr (toBytes first.2.size first.2.value) =
          (shadow.write first.2.addr (toBytes first.2.size first.2.value)).write addr raw := by
        apply Shadow.write_comm
        rw [toBytes_length]
        exact (apart first List.mem_cons_self).symm
      have later := @inductionHypothesis
        (shadow.write first.2.addr (toBytes first.2.size first.2.value))
        fun entry member => apart entry (List.mem_cons_of_mem _ member)
      change flush ((shadow.write addr raw).write first.2.addr _) rest = _
      rw [swap]
      exact later

theorem flush_read
    (apart : ∀ entry ∈ entries, Apart entry.2.addr entry.2.size addr size) :
    (flush shadow entries).read addr size = shadow.read addr size := by
  induction entries generalizing shadow with
  | nil => rfl
  | cons first rest inductionHypothesis =>
      have later := @inductionHypothesis
        (shadow.write first.2.addr (toBytes first.2.size first.2.value))
        fun entry member => apart entry (List.mem_cons_of_mem _ member)
      refine later.trans (Shadow.read_write_apart ?_)
      rw [toBytes_length]
      exact apart first List.mem_cons_self

theorem flush_covers : (flush shadow entries).Covers addr size ↔ shadow.Covers addr size := by
  induction entries generalizing shadow with
  | nil => exact Iff.rfl
  | cons first rest inductionHypothesis => exact inductionHypothesis.trans Shadow.covers_write

/-- One of the pending stores can be done first. -/
theorem flush_take
    (entry : Entry)
    (first rest : List Entry)
    (fits : ∀ other ∈ first ++ entry :: rest, other.Fits values)
    (distinct : (first ++ entry :: rest).NodupKeys) :
    flush shadow (first ++ entry :: rest) =
      flush (shadow.write entry.2.addr (toBytes entry.2.size entry.2.value)) (first ++ rest) := by
  have entryFits := fits entry (List.mem_append_right _ List.mem_cons_self)
  have unlike := (List.nodupKeys_middle.mp distinct)
  rw [List.nodupKeys_cons] at unlike
  rw [flush_append, flush_append]
  change flush ((flush shadow first).write entry.2.addr _) rest = _
  rw [@flush_write _ shadow]
  intro other member
  rw [toBytes_length]
  apply (fits other (List.mem_append_left _ member)).apart entryFits
  intro same
  apply unlike.1
  rw [← same]
  exact List.mem_keys_of_mem (List.mem_append_left _ member)

/-! ## The dictionary of pending stores -/

/-- Where a pending store is found, it can be taken out. -/
theorem entries_of_lookup
    {pending : AList fun _ : Nat => ExactStore}
    {key : Nat} {e : ExactStore}
    (found : pending.lookup key = some e) :
    ∃ first rest, pending.entries = first ++ ⟨key, e⟩ :: rest ∧
      (pending.erase key).entries = first ++ rest := by
  have member : (⟨key, e⟩ : Entry) ∈ pending.entries := List.of_mem_dlookup found
  obtain ⟨e', first, rest, -, split, erased⟩ :=
    List.exists_of_kerase (List.mem_keys_of_mem member)
  have same : e' = e := by
    apply pending.nodupKeys.eq_of_mk_mem _ member
    rw [split]
    exact List.mem_append_right _ List.mem_cons_self
  exact ⟨first, rest, same ▸ split, erased⟩

/-- A pending store that is done first is no longer pending. -/
theorem flush_erase
    (shadow : Shadow)
    {pending : AList fun _ : Nat => ExactStore}
    {key : Nat} {e : ExactStore}
    (fits : ∀ entry ∈ pending.entries, Entry.Fits values entry)
    (found : pending.lookup key = some e) :
    flush (shadow.write e.addr (toBytes e.size e.value)) (pending.erase key).entries =
      flush shadow pending.entries := by
  obtain ⟨first, rest, split, erased⟩ := entries_of_lookup found
  rw [split, erased]
  symm
  exact flush_take ⟨key, e⟩ first rest (split ▸ fits) (split ▸ pending.nodupKeys)

/-- The latest of the exact stores to a place is the one that counts. -/
theorem flush_insert
    {pending : AList fun _ : Nat => ExactStore}
    (fits : ∀ entry ∈ pending.entries, Entry.Fits values entry)
    (new : entry.Fits values) :
    flush shadow (pending.insert entry.1 entry.2).entries =
      (flush shadow pending.entries).write entry.2.addr (toBytes entry.2.size entry.2.value) := by
  have apart : ∀ other ∈ (pending.erase entry.1).entries,
      Apart other.2.addr other.2.size entry.2.addr (toBytes entry.2.size entry.2.value).length := by
    intro other member
    rw [toBytes_length]
    apply (fits other ((List.kerase_sublist _ _).subset member)).apart new
    intro same
    have gone : entry.1 ∉ (pending.erase entry.1).entries.keys :=
      List.notMem_keys_kerase _ pending.nodupKeys
    apply gone
    rw [← same]
    exact List.mem_keys_of_mem (same ▸ member)
  rw [AList.entries_insert]
  change flush (shadow.write entry.2.addr (toBytes entry.2.size entry.2.value))
    (pending.erase entry.1).entries = _
  cases found : pending.lookup entry.1 with
  | none =>
      have erased : (pending.erase entry.1).entries = pending.entries := by
        apply List.kerase_of_notMem_keys
        exact List.dlookup_eq_none.mp found
      rw [erased] at apart ⊢
      exact flush_write _ apart
  | some e =>
      obtain ⟨first, rest, split, -⟩ := entries_of_lookup found
      have earlier : Entry.Fits values ⟨entry.1, e⟩ := by
        apply fits
        rw [split]
        exact List.mem_append_right _ List.mem_cons_self
      have small := new.small
      have small' := earlier.small
      have key := new.key
      have key' := earlier.key
      dsimp only at small' key'
      have addr_eq : e.addr = entry.2.addr := by omega
      have size_eq : e.size = entry.2.size := by omega
      rw [← flush_erase shadow fits found, ← flush_write _ apart, addr_eq, size_eq, Shadow.write_write]
      rw [toBytes_length, toBytes_length]

end Signals
end TriCoreDap
