import TriCoreDap.Library.Memory
import TriCoreDap.Signals.Extractor
import Mathlib.Data.List.Dedup

/-!
# The event log

`session.py`: `EventLog`, which keeps the decoded events in chunks and folds the
oldest ones into a base memory when there are too many.
-/

namespace TriCoreDap
namespace Signals

open Decode (Row Kind)

/-- Rows in a chunk before it is made. -/
def chunkRows : Nat := 65536

/-- Rows in a batch of `raw_rows`. -/
def batchRows : Nat := 16384

/-- `EventLog`: the chunks, oldest first, and the rows that are in none yet; no limit
is 0. -/
structure EventLog where
  chunks : List (List Row)
  pending : List Row
  n : Nat
  limit : Nat
  dropped : Nat
  base : AList fun _ : Nat => Byte

/-- An integer of `bits` bits with a sign. -/
def Fits (bits : Nat) (v : Int) : Prop := -2 ^ (bits - 1) ≤ v ∧ v < 2 ^ (bits - 1)

/-- A row goes into the columns of a chunk. -/
def InColumns (row : Row) : Prop :=
  Fits 64 row.cycles ∧ Fits 64 row.addr ∧ Fits 64 row.value ∧ row.size < 256 ∧
    Fits 32 row.wp ∧ Fits 32 row.count

instance decidableInColumns (row : Row) : Decidable (InColumns row) :=
  inferInstanceAs (Decidable
    ((_ ∧ _) ∧ (_ ∧ _) ∧ (_ ∧ _) ∧ row.size < 256 ∧ (_ ∧ _) ∧ (_ ∧ _)))

/-- The bytes that a row stores, as `_absorb` sees it. -/
def storedBytes (row : Row) : List (Nat × Byte) :=
  if (row.kind = .write ∨ row.kind = .read) ∧ 0 ≤ row.addr ∧ 0 ≤ row.value then
    (List.range (if row.size = 0 then 4 else row.size)).map fun off =>
      (row.addr.toNat + off, byteOf row.value.toNat off)
  else []

namespace EventLog

def empty (limit : Nat) : EventLog := ⟨[], [], 0, limit, 0, ∅⟩

/-- `_absorb`: the last value of each byte that the chunk stores. -/
def absorb (base : AList fun _ : Nat => Byte) (chunk : List Row) : AList fun _ : Nat => Byte :=
  let writes := chunk.flatMap storedBytes
  let uniq := (writes.map Prod.fst).dedup.insertionSort (· ≤ ·)
  uniq.foldl (fun base addr => base.insert addr ((lastWrite writes addr).getD 0)) base

/-- The loop of `_flush`: the oldest chunks go while there are too many rows. -/
def dropChunks (log : EventLog) : (chunks : List (List Row)) → EventLog
  | chunk :: next :: rest =>
      if log.n - log.dropped > log.limit then
        dropChunks { log with
          base := absorb log.base chunk
          dropped := log.dropped + chunk.length } (next :: rest)
      else { log with chunks := chunk :: next :: rest }
  | chunks => { log with chunks := chunks }

/-- `_flush`; a number that its column cannot hold is an error. -/
def flush (log : EventLog) : Option EventLog :=
  if log.pending = [] then some log
  else if ∀ row ∈ log.pending, InColumns row then
    let chunks := log.chunks ++ [log.pending]
    let log := { log with chunks := chunks, pending := [] }
    some (if log.limit ≠ 0 then log.dropChunks chunks else log)
  else none

/-- `add_rows`. -/
def addRows (log : EventLog) (rows : List Row) : Option EventLog :=
  let log := { log with pending := log.pending ++ rows, n := log.n + rows.length }
  if log.pending.length ≥ chunkRows then log.flush else some log

/-- A byte after the last run of `memory`, or a new run. -/
def addByte (out : List (Nat × List Byte)) (addr : Nat) (byte : Byte) : List (Nat × List Byte) :=
  match out.getLast? with
  | some (start, raw) =>
      if start + raw.length = addr then out.dropLast ++ [(start, raw ++ [byte])]
      else out ++ [(addr, [byte])]
  | none => [(addr, [byte])]

/-- `memory`. -/
def memory (log : EventLog) : List (Nat × List Byte) :=
  (log.base.keys.insertionSort (· ≤ ·)).foldl
    (fun out addr => addByte out addr ((log.base.lookup addr).getD 0)) []

/-- `first_cycles`, after its `_flush`. -/
def firstCycles (log : EventLog) : Option Int :=
  (log.chunks.flatten.map Row.cycles).find? fun cycles => decide (0 ≤ cycles)

/-- The batches of a chunk in `raw_rows`. -/
def batches : (fuel : Nat) → List Row → List (List Row)
  | 0, _ => []
  | _ + 1, [] => []
  | fuel + 1, rows => rows.take batchRows :: batches fuel (rows.drop batchRows)

/-- `raw_rows`, after its `_flush`. -/
def rawRows (log : EventLog) : List (List Row) :=
  log.chunks.flatMap fun chunk => batches chunk.length chunk

/-! ## What the log holds -/

/-- The rows that are still there. -/
def rows (log : EventLog) : List Row := log.chunks.flatten ++ log.pending

/-- The log has dropped these rows, and keeps what they stored. -/
structure Holds (gone : List Row) (log : EventLog) : Prop where
  dropped_eq : log.dropped = gone.length
  n_eq : log.n = gone.length + log.rows.length
  base_eq : ∀ addr, log.base.lookup addr = lastWrite (gone.flatMap storedBytes) addr

variable {log log' : EventLog} {gone : List Row}

theorem holds_empty (limit : Nat) : (empty limit).Holds [] := ⟨rfl, rfl, fun _ => rfl⟩

theorem foldl_insert_lookup
    (value : Nat → Byte)
    (addrs : List Nat)
    (base : AList fun _ : Nat => Byte)
    (addr : Nat) :
    (addrs.foldl (fun base addr => base.insert addr (value addr)) base).lookup addr =
      if addr ∈ addrs then some (value addr) else base.lookup addr := by
  induction addrs generalizing base with
  | nil => rfl
  | cons first rest inductionHypothesis =>
      rw [List.foldl_cons, inductionHypothesis]
      by_cases later : addr ∈ rest
      · rw [if_pos later, if_pos (List.mem_cons_of_mem _ later)]
      · rw [if_neg later]
        by_cases same : addr = first
        · rw [same, AList.lookup_insert, if_pos List.mem_cons_self]
        · rw [AList.lookup_insert_ne same, if_neg]
          rw [List.mem_cons]
          exact fun inside => inside.elim same later

/-- A place that is written to has a last write. -/
theorem lastWrite_isSome
    {writes : List (Nat × Byte)}
    {addr : Nat}
    (written : addr ∈ writes.map Prod.fst) : (lastWrite writes addr).isSome := by
  induction writes with
  | nil => exact absurd written List.not_mem_nil
  | cons write rest inductionHypothesis =>
      rw [lastWrite_cons]
      by_cases later : addr ∈ rest.map Prod.fst
      · obtain ⟨last, found⟩ := Option.isSome_iff_exists.mp (inductionHypothesis later)
        rw [found]
        rfl
      · rw [List.map_cons, List.mem_cons] at written
        have here := written.resolve_right later
        rw [if_pos here.symm]
        cases lastWrite rest addr <;> rfl

theorem lastWrite_of_not_mem
    {writes : List (Nat × Byte)}
    {addr : Nat}
    (unwritten : addr ∉ writes.map Prod.fst) : lastWrite writes addr = none := by
  apply lastWrite_none
  rintro write member rfl
  exact unwritten (List.mem_map_of_mem member)

/-- A chunk's stores go on top of what the base has. -/
theorem absorb_lookup (base : AList fun _ : Nat => Byte) (chunk : List Row) (addr : Nat) :
    (absorb base chunk).lookup addr =
      (lastWrite (chunk.flatMap storedBytes) addr).or (base.lookup addr) := by
  rw [absorb, foldl_insert_lookup]
  simp only [List.mem_insertionSort, List.mem_dedup]
  split_ifs with written
  · obtain ⟨last, found⟩ := Option.isSome_iff_exists.mp (lastWrite_isSome written)
    rw [found]
    rfl
  · rw [lastWrite_of_not_mem written]
    rfl

/-- The log took what `before` had, dropped some of it, and has the rest. -/
def Follows (gone before : List Row) (log : EventLog) : Prop :=
  ∃ more, before = more ++ log.rows ∧ log.Holds (gone ++ more)

theorem Holds.follows (holds : log.Holds gone) : log.Follows gone log.rows :=
  ⟨[], rfl, by rw [List.append_nil]; exact holds⟩

/-- Dropping chunks moves rows from what is kept to what is gone. -/
theorem dropChunks_follows
    (chunks : List (List Row))
    (idle : log.pending = [])
    (holds : Holds gone { log with chunks := chunks }) :
    (log.dropChunks chunks).Follows gone chunks.flatten ∧
      (log.dropChunks chunks).limit = log.limit ∧ (log.dropChunks chunks).pending = [] := by
  have kept : ({ log with chunks := chunks } : EventLog).Follows gone chunks.flatten := by
    have whole : ({ log with chunks := chunks } : EventLog).rows = chunks.flatten := by
      rw [rows, idle, List.append_nil]
    exact whole ▸ holds.follows
  induction chunks generalizing log gone with
  | nil => exact ⟨kept, rfl, idle⟩
  | cons chunk rest inductionHypothesis =>
      cases rest with
      | nil => exact ⟨kept, rfl, idle⟩
      | cons next rest =>
          rw [dropChunks]
          split_ifs with full
          · set fewer : EventLog := { log with
              base := absorb log.base chunk
              dropped := log.dropped + chunk.length } with fewer_def
            have fewer_holds : Holds (gone ++ chunk) { fewer with chunks := next :: rest } := by
              refine ⟨?_, ?_, fun addr => ?_⟩
              · have dropped := holds.dropped_eq
                dsimp only at dropped ⊢
                rw [fewer_def, List.length_append, ← dropped]
              · have n := holds.n_eq
                simp only [rows, List.flatten_cons, List.length_append, fewer_def] at n ⊢
                omega
              · have base := holds.base_eq addr
                dsimp only [fewer_def] at base ⊢
                rw [absorb_lookup, List.flatMap_append, lastWrite_append, base]
            have fewer_kept : ({ fewer with chunks := next :: rest } : EventLog).Follows
                (gone ++ chunk) (next :: rest).flatten := by
              have whole : ({ fewer with chunks := next :: rest } : EventLog).rows =
                  (next :: rest).flatten := by
                rw [rows, idle, List.append_nil]
              exact whole ▸ fewer_holds.follows
            obtain ⟨⟨more, split, later⟩, limit, pending⟩ :=
              @inductionHypothesis fewer (gone ++ chunk) idle fewer_holds fewer_kept
            refine ⟨⟨chunk ++ more, ?_, ?_⟩, limit, pending⟩
            · rw [List.flatten_cons, split, List.append_assoc]
            · rw [← List.append_assoc]
              exact later
          · exact ⟨kept, rfl, idle⟩

/-- A flush keeps every row that it does not drop, and nothing is pending after it. -/
theorem flush_follows (holds : log.Holds gone) (done : log.flush = some log') :
    log'.Follows gone log.rows ∧ log'.limit = log.limit ∧ log'.pending = [] := by
  rw [flush] at done
  set chunked : EventLog := { log with chunks := log.chunks ++ [log.pending], pending := [] }
    with chunked_def
  have chunked_rows : chunked.chunks.flatten = log.rows := by
    rw [chunked_def, List.flatten_append, List.flatten_cons, List.flatten_nil, List.append_nil, rows]
  have chunked_holds : chunked.Holds gone := by
    refine ⟨holds.dropped_eq, ?_, holds.base_eq⟩
    rw [rows, chunked_rows, List.append_nil]
    exact holds.n_eq
  split_ifs at done with idle fits
  · obtain rfl := Option.some.inj done
    exact ⟨holds.follows, rfl, idle⟩
  · obtain rfl := Option.some.inj done
    rw [← chunked_rows]
    change (if chunked.limit ≠ 0 then chunked.dropChunks chunked.chunks else chunked).Follows
      gone chunked.chunks.flatten ∧ (if chunked.limit ≠ 0 then chunked.dropChunks chunked.chunks
        else chunked).limit = chunked.limit ∧ (if chunked.limit ≠ 0 then
          chunked.dropChunks chunked.chunks else chunked).pending = []
    split_ifs
    · exact dropChunks_follows chunked.chunks rfl chunked_holds
    · refine ⟨?_, rfl, rfl⟩
      have whole : chunked.rows = chunked.chunks.flatten := List.append_nil _
      exact whole ▸ chunked_holds.follows

theorem addRows_follows
    (holds : log.Holds gone)
    {added : List Row}
    (done : log.addRows added = some log') :
    log'.Follows gone (log.rows ++ added) ∧ log'.limit = log.limit := by
  set filled : EventLog :=
    { log with pending := log.pending ++ added, n := log.n + added.length } with filled_def
  have filled_rows : filled.rows = log.rows ++ added := (List.append_assoc _ _ _).symm
  have filled_holds : filled.Holds gone := by
    refine ⟨holds.dropped_eq, ?_, holds.base_eq⟩
    rw [filled_rows, List.length_append, ← Nat.add_assoc, ← holds.n_eq]
  rw [addRows] at done
  change (if filled.pending.length ≥ chunkRows then filled.flush else some filled) = some log' at done
  split_ifs at done
  · obtain ⟨follows, limit, -⟩ := flush_follows filled_holds done
    exact ⟨filled_rows ▸ follows, limit⟩
  · obtain rfl := Option.some.inj done
    exact ⟨filled_rows ▸ filled_holds.follows, rfl⟩

/-! ## What the log gives -/

theorem batches_flatten (rows : List Row) (enough : rows.length ≤ fuel) :
    (batches fuel rows).flatten = rows := by
  induction fuel generalizing rows with
  | zero =>
      rw [List.length_eq_zero_iff.mp (Nat.le_zero.mp enough)]
      rfl
  | succ fuel inductionHypothesis =>
      cases rows with
      | nil => rfl
      | cons row rest =>
          have fewer : ((row :: rest).drop batchRows).length ≤ fuel := by
            rw [List.length_drop, batchRows]
            rw [List.length_cons] at enough ⊢
            omega
          rw [batches, List.flatten_cons, inductionHypothesis _ fewer, List.take_append_drop]
          exact List.cons_ne_nil _ _

theorem rawRows_flatten (idle : log.pending = []) : log.rawRows.flatten = log.rows := by
  rw [rows, idle, List.append_nil, rawRows]
  induction log.chunks with
  | nil => rfl
  | cons chunk rest inductionHypothesis =>
      rw [List.flatMap_cons, List.flatten_append, inductionHypothesis,
        batches_flatten chunk (le_refl _), List.flatten_cons]

/-- The bytes of runs, one by one. -/
def runBytes (runs : List (Nat × List Byte)) : List (Nat × Byte) :=
  runs.flatMap fun run => writesFrom (run.1 + ·) 0 run.2

theorem runBytes_append (first second : List (Nat × List Byte)) :
    runBytes (first ++ second) = runBytes first ++ runBytes second :=
  List.flatMap_append

theorem runBytes_addByte (out : List (Nat × List Byte)) (addr : Nat) (byte : Byte) :
    runBytes (addByte out addr byte) = runBytes out ++ [(addr, byte)] := by
  rw [addByte]
  cases last : out.getLast? with
  | none =>
      rw [List.getLast?_eq_none_iff.mp last]
      rfl
  | some run =>
      obtain ⟨start, raw⟩ := run
      dsimp only
      split_ifs with next
      · have split : out = out.dropLast ++ [(start, raw)] :=
          (List.dropLast_append_getLast? _ last).symm
        conv_rhs => rw [split]
        rw [runBytes_append, runBytes_append, List.append_assoc]
        congr 1
        simp only [runBytes, List.flatMap_cons, List.flatMap_nil, List.append_nil,
          writesFrom_append, writesFrom, Nat.zero_add, next]
      · rw [runBytes_append]
        rfl

/-- The memory is the base, byte by byte. -/
theorem lastWrite_memory (log : EventLog) (addr : Nat) :
    lastWrite (runBytes log.memory) addr = log.base.lookup addr := by
  have bytes (addrs : List Nat) (out : List (Nat × List Byte)) :
      runBytes (addrs.foldl
          (fun out addr => addByte out addr ((log.base.lookup addr).getD 0)) out) =
        runBytes out ++ addrs.map fun addr => (addr, (log.base.lookup addr).getD 0) := by
    induction addrs generalizing out with
    | nil => exact (List.append_nil _).symm
    | cons first rest inductionHypothesis =>
        rw [List.foldl_cons, inductionHypothesis, runBytes_addByte, List.append_assoc]
        rfl
  have values (addrs : List Nat) (addr : Nat) :
      lastWrite (addrs.map fun addr => (addr, (log.base.lookup addr).getD 0)) addr =
        if addr ∈ addrs then some ((log.base.lookup addr).getD 0) else none := by
    induction addrs with
    | nil => rfl
    | cons first rest inductionHypothesis =>
        rw [List.map_cons, lastWrite_cons, inductionHypothesis]
        by_cases later : addr ∈ rest
        · rw [if_pos later, if_pos (List.mem_cons_of_mem _ later)]
          rfl
        · rw [if_neg later]
          by_cases same : first = addr
          · rw [same, if_pos rfl, if_pos List.mem_cons_self]
            rfl
          · rw [if_neg same, if_neg]
            · rfl
            · rw [List.mem_cons]
              exact fun inside => inside.elim (fun equal => same equal.symm) later
  rw [memory, bytes, runBytes, List.flatMap_nil, List.nil_append, values]
  simp only [List.mem_insertionSort]
  split_ifs with inside
  · obtain ⟨byte, found⟩ := Option.isSome_iff_exists.mp (AList.lookup_isSome.mpr inside)
    rw [found]
    rfl
  · exact (AList.lookup_eq_none.mpr inside).symm

end EventLog
end Signals
end TriCoreDap
