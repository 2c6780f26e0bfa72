import TriCoreDap.Flash.Programming
import TriCoreDap.Flash.Target

/-!
# What programming leaves in the cells

While the regions are programmed, the pages done so far hold the region's bytes with the
last page padded, the erased pages before the cursor's are still erased, and no other cell
changes.
-/

namespace TriCoreDap
namespace Flash

open Probe

/-- The byte that programming puts at an address of the region's pages. -/
def FlashRegion.padded (region : FlashRegion) (address : Nat) : Byte :=
  region.data.getD (address - region.address) flashErased

/-- The cells when some regions are done and one is at `cursor`, `erased` the cells that
were erased and `before` all of them as they were. -/
structure Written
    (session : FlashSession)
    (erased : Nat → Prop)
    (before : Nat → Byte)
    (done : List FlashRegion)
    (region : FlashRegion)
    (cursor : Nat)
    (cells : Nat → Byte) : Prop where
  finished : ∀ other ∈ done, ∀ address, Uncached address → InPages other address →
    erased (session.command address) → cells (session.command address) = other.padded address
  current : ∀ address, Uncached address → InPages region address → address < cursor →
    erased (session.command address) → cells (session.command address) = region.padded address
  blank : ∀ address, Uncached address → ¬Programmed done region cursor address →
    erased (session.command address) → cells (session.command address) = flashErased
  outside : ∀ command, ¬erased command → cells command = before command

variable {session : FlashSession} {regions done : List FlashRegion} {swapActive : Bool}
  {region : FlashRegion} {erased : Nat → Prop} {before cells cells' : Nat → Byte}
  {low high offset cursor : Nat} {target : FlashTarget}

/-- What is programmed is one of the pages of the region at most. -/
theorem not_inPages_of_apart
    {other : FlashRegion}
    (apart : ∀ other ∈ done, ∀ address, other.Holds address → ¬region.Holds address)
    (isDone : other ∈ done)
    (inOther : InPages other address) : ¬InPages region address :=
  apart other isDone _ inOther

/-! ## One chunk -/

/-- The pages that a chunk at the cursor loads. -/
structure ChunkAt
    (session : FlashSession)
    (erased : Nat → Prop)
    (region : FlashRegion)
    (cursor pages : Nat)
    (chunk : List Byte) : Prop where
  aligned : cursor % flashPage = 0
  command : ∀ more, more < flashPage * pages →
    session.command (cursor + more) = session.command cursor + more
  uncached : ∀ more, more < flashPage * pages → Uncached (cursor + more)
  inPages : ∀ more, more < flashPage * pages → InPages region (cursor + more)
  erased : ∀ more, more < flashPage * pages → erased (session.command cursor + more)
  bytes : ∀ more, more < flashPage * pages →
    chunk.getD more flashErased = region.padded (cursor + more)

variable {pages : Nat} {chunk : List Byte}

/-- An address that a load at the cursor goes to. -/
theorem ChunkAt.exists_offset
    (loads : ChunkAt session erased region cursor pages chunk)
    (uncached : Uncached address)
    (above : session.command cursor ≤ session.command address)
    (below : session.command address < session.command cursor + flashPage * pages) :
    ∃ more, more < flashPage * pages ∧ address = cursor + more := by
  have inChunk : session.command address - session.command cursor < flashPage * pages := by
    omega
  have command := loads.command _ inChunk
  have same : session.command address =
      session.command (cursor + (session.command address - session.command cursor)) := by
    omega
  exact ⟨_, inChunk, commandAddress_injective uncached (loads.uncached _ inChunk) same⟩

/-- Where the load does not go the cells stay. -/
theorem ChunkAt.kept
    (loads : ChunkAt session erased region cursor pages chunk)
    (same : SameOutside (session.command cursor) (flashPage * pages) cells cells')
    (uncached : Uncached address)
    (elsewhere : ¬InPages region address ∨ address < cursor ∨
      cursor + flashPage * pages ≤ address) :
    cells' (session.command address) = cells (session.command address) := by
  by_contra changed
  obtain ⟨above, below⟩ := same.mem_of_ne changed
  obtain ⟨more, inChunk, rfl⟩ := loads.exists_offset uncached above below
  rcases elsewhere with elsewhere | elsewhere
  · exact elsewhere (loads.inPages more inChunk)
  · omega

/-- The pages of the chunk were still erased, so that they now hold it. -/
theorem ChunkAt.written
    (loads : ChunkAt session erased region cursor pages chunk)
    (apart : ∀ other ∈ done, ∀ address, other.Holds address → ¬region.Holds address)
    (written : Written session erased before done region cursor cells)
    (pagesWritten : PagesWritten (session.command cursor) pages chunk cells cells')
    (inChunk : more < flashPage * pages) :
    cells' (session.command (cursor + more)) = region.padded (cursor + more) := by
  have page_lt : more / flashPage < pages := Nat.div_lt_of_lt_mul inChunk
  have split : flashPage * (more / flashPage) + more % flashPage = more := Nat.div_add_mod _ _
  have inPage : more % flashPage < flashPage := Nat.mod_lt _ (by decide)
  have blankPage : PageErased cells
      (session.command cursor + flashPage * (more / flashPage)) := by
    intro i i_lt
    have inChunk' : flashPage * (more / flashPage) + i < flashPage * pages := by
      simp only [flashPage] at *
      omega
    have command := loads.command _ inChunk'
    rw [Nat.add_assoc, ← command]
    refine written.blank _ (loads.uncached _ inChunk') ?_ (command ▸ loads.erased _ inChunk')
    rintro (⟨other, isDone, inOther⟩ | ⟨-, before⟩)
    · exact not_inPages_of_apart apart isDone inOther (loads.inPages _ inChunk')
    · omega
  have held := pagesWritten _ page_lt blankPage _ inPage
  rw [Nat.add_assoc, split] at held
  rw [loads.command _ inChunk, held, loads.bytes _ inChunk]

/-- A load of the chunk moves the cursor behind its pages. -/
theorem Written.load
    (written : Written session erased before done region cursor cells)
    (loads : ChunkAt session erased region cursor pages chunk)
    (apart : ∀ other ∈ done, ∀ address, other.Holds address → ¬region.Holds address)
    (same : SameOutside (session.command cursor) (flashPage * pages) cells cells')
    (pagesWritten : PagesWritten (session.command cursor) pages chunk cells cells') :
    Written session erased before done region (cursor + flashPage * pages) cells' := by
  constructor
  · intro other isDone address uncached inOther isErased
    rw [loads.kept same uncached (Or.inl (not_inPages_of_apart apart isDone inOther))]
    exact written.finished other isDone address uncached inOther isErased
  · intro address uncached inRegion behind isErased
    by_cases first : address < cursor
    · rw [loads.kept same uncached (Or.inr (Or.inl first))]
      exact written.current address uncached inRegion first isErased
    · obtain ⟨more, rfl⟩ := Nat.exists_eq_add_of_le (Nat.le_of_not_lt first)
      exact loads.written apart written pagesWritten (by omega)
  · intro address uncached notProgrammed isErased
    have elsewhere : ¬InPages region address ∨ address < cursor ∨
        cursor + flashPage * pages ≤ address := by
      by_contra inChunk
      obtain ⟨inRegion, notBefore, notBehind⟩ : InPages region address ∧
          ¬address < cursor ∧ ¬cursor + flashPage * pages ≤ address := by
        simpa only [not_or, not_not] using inChunk
      exact notProgrammed (Or.inr ⟨inRegion, Nat.lt_of_not_le notBehind⟩)
    rw [loads.kept same uncached elsewhere]
    refine written.blank address uncached (fun programmed => notProgrammed ?_) isErased
    exact programmed.mono (Nat.le_add_right _ _)
  · intro command notErased
    rw [← written.outside command notErased]
    refine same command ?_
    by_contra inChunk
    refine notErased ?_
    have isErased := loads.erased (command - session.command cursor) (by omega)
    rwa [show session.command cursor + (command - session.command cursor) = command by omega]
      at isErased

/-! ## The chunks of a window -/

/-- The part of a region's data in a window. -/
def FlashRegion.slice (region : FlashRegion) (low high : Nat) : List Byte :=
  (region.data.drop (low - region.address)).take (high - low)

theorem FlashRegion.getElem?_slice
    (start : region.address ≤ low)
    (inside : low + index < high) :
    (region.slice low high)[index]? = region.data[low + index - region.address]? := by
  rw [slice, List.getElem?_take, if_pos (by omega), List.getElem?_drop]
  congr 1
  omega

theorem FlashRegion.length_slice
    (start : region.address ≤ low)
    (ordered : low ≤ high)
    (inside : high ≤ region.address + region.length) :
    low + (region.slice low high).length = high := by
  rw [slice, List.length_take, List.length_drop]
  rw [FlashRegion.length] at inside
  omega

/-- What is left after a chunk. -/
theorem FlashRegion.drop_slice (start : region.address ≤ low) (count : Nat) :
    (region.slice low high).drop count = region.slice (low + count) high := by
  rw [slice, slice, List.drop_take, List.drop_drop]
  congr 1
  · omega
  · congr 1
    omega

/-- Windows end with a page or with the region. -/
def EndsPadded (region : FlashRegion) (high : Nat) : Prop :=
  high % flashPage = 0 ∨ high = region.address + region.length

/-- A chunk with its padding is what the region's pages are to hold. -/
theorem bytes_padded
    (start : region.address ≤ low)
    (ordered : low ≤ high)
    (inside : high ≤ region.address + region.length)
    (aligned : low % flashPage = 0)
    (ends : EndsPadded region high)
    (size : Nat)
    (whole : size % flashPage = 0)
    (inPages : more < flashPage * chunkPages ((region.slice low high).take size).length) :
    ((region.slice low high).take size ++
        List.replicate (padding ((region.slice low high).take size).length) flashErased).getD more
          flashErased =
      region.padded (low + more) := by
  have length := FlashRegion.length_slice start ordered inside
  have taken : ((region.slice low high).take size).length =
      min size (region.slice low high).length := List.length_take
  have pages := chunkPages_spec ((region.slice low high).take size).length
  rw [List.getD_eq_getElem?_getD, FlashRegion.padded, List.getD_eq_getElem?_getD]
  by_cases inChunk : more < ((region.slice low high).take size).length
  · rw [List.getElem?_append_left inChunk, List.getElem?_take, if_pos (by omega),
      FlashRegion.getElem?_slice start (by omega)]
  · have short : region.length ≤ low + more - region.address := by
      simp only [EndsPadded, padding, flashPage] at *
      omega
    rw [List.getElem?_append_right (Nat.le_of_not_lt inChunk), List.getElem?_replicate,
      List.getElem?_eq_none short]
    split_ifs
    · rfl
    · rfl

/-- A chunk of a window may be loaded. -/
theorem Window.chunkAt
    (window : Window session erased region low high)
    (ends : EndsPadded region high)
    (aligned : offset % flashPage = 0)
    (inWindow : low + offset ≤ high) :
    ChunkAt session erased region (low + offset)
      (chunkPages ((region.slice (low + offset) high).take loaderBufferBytes).length)
      ((region.slice (low + offset) high).take loaderBufferBytes ++ List.replicate
        (padding ((region.slice (low + offset) high).take loaderBufferBytes).length)
          flashErased) := by
  have alignedLow := window.aligned
  have start := window.start
  have inside := window.inside
  have alignedChunk : (low + offset) % flashPage = 0 := by
    simp only [flashPage] at *
    omega
  have length : low + offset + (region.slice (low + offset) high).length = high :=
    FlashRegion.length_slice (by omega) inWindow inside
  have taken : ((region.slice (low + offset) high).take loaderBufferBytes).length =
      min loaderBufferBytes (region.slice (low + offset) high).length := List.length_take
  have bytes : ∀ more, more < flashPage *
      chunkPages ((region.slice (low + offset) high).take loaderBufferBytes).length → _ :=
    fun more => bytes_padded (by omega) inWindow inside alignedChunk ends loaderBufferBytes
      (by decide)
  generalize ((region.slice (low + offset) high).take loaderBufferBytes) = chunk at *
  have pages_eq := chunkPages_spec chunk.length
  have before (more : Nat) (inChunk : more < flashPage * chunkPages chunk.length) :
      low + (offset + more) < ceilPage high := by
    simp only [ceilPage, padding, flashPage, loaderBufferBytes] at *
    omega
  have command (more : Nat) (inChunk : more < flashPage * chunkPages chunk.length) :
      session.command (low + offset + more) = session.command (low + offset) + more := by
    have first : low + offset < ceilPage high := before 0 (by omega)
    rw [Nat.add_assoc, window.command _ (before more inChunk), window.command _ first,
      Nat.add_assoc]
  refine ⟨alignedChunk, command, ?_, ?_, ?_, bytes⟩
  · intro more inChunk
    rw [Nat.add_assoc]
    exact window.uncached _ (before more inChunk)
  · intro more inChunk
    simp only [InPages, FlashRegion.Holds, alignDown, padding, flashPage, loaderBufferBytes] at *
    omega
  · intro more inChunk
    rw [← command more inChunk, Nat.add_assoc, window.command _ (before more inChunk)]
    exact window.erased _ (before more inChunk)

theorem drop_min_length (count : Nat) (data : List Byte) :
    data.drop count = data.drop (min count data.length) := by
  rcases Nat.le_total count data.length with short | long
  · rw [Nat.min_eq_left short]
  · rw [Nat.min_eq_right long, List.drop_length, List.drop_of_length_le long]

/-- A write to the loader's buffer that succeeds fills it and changes no cell. -/
theorem FlashTarget.buffer_of_step
    {after : FlashTarget}
    (step : FlashTarget.device swapActive (.writeBlock loaderBuffer data) target reply after) :
    after.cells = target.cells ∧ (reply = true → after.buffer = data) := by
  obtain ⟨written, acts, rfl⟩ := step
  have acts : if loaderBuffer = loaderBuffer then ∃ buffer',
      written = { target with buffer := buffer' } ∧ (reply = true → buffer' = data)
      else written = target := acts
  rw [if_pos rfl] at acts
  obtain ⟨buffer', rfl, filled⟩ := acts
  exact ⟨rfl, filled⟩

/-- A run of the loader that programs changes its pages only, and when it succeeds the
erased ones hold the buffer. -/
theorem FlashTarget.pages_of_step
    {after : FlashTarget}
    {reply : Option Word}
    (step : FlashTarget.device swapActive (.runLoader .program addr pages timeoutMs) target reply
      after) :
    SameOutside addr (flashPage * pages) target.cells after.cells ∧
      (reply ≠ none → PagesWritten addr pages target.buffer target.cells after.cells) := by
  obtain ⟨loaded, ⟨cells', rfl, same, pagesWritten⟩, rfl⟩ := step
  exact ⟨same, pagesWritten⟩

/-- The loop of `tricore_flash_program` over a window. -/
theorem holds_programChunks_written
    {target : FlashTarget}
    {offset : Nat}
    (window : Window session erased region low high)
    (ends : EndsPadded region high)
    (apart : ∀ other ∈ done, ∀ address, other.Holds address → ¬region.Holds address)
    (inWindow : low + offset ≤ high)
    (aligned : low + offset < high → offset % flashPage = 0)
    (written : Written session erased before done region (ceilPage (low + offset)) target.cells) :
    (programChunks session low offset (region.slice (low + offset) high)).Holds
      (FlashTarget.device session.swapActive) (fun _ => True)
      (fun result last => result = .ok () →
        Written session erased before done region (ceilPage high) last.cells) target := by
  have startAt : region.address ≤ low + offset := Nat.le_add_right_of_le window.start
  have length : low + offset + (region.slice (low + offset) high).length = high :=
    FlashRegion.length_slice startAt inWindow window.inside
  rw [programChunks]
  split
  · next empty =>
      rw [empty, List.length_nil, Nat.add_zero] at length
      exact ⟨trivial, fun _ => length ▸ written⟩
  · next nonempty =>
      have positive := List.length_pos_iff.mpr nonempty
      have alignedOffset := aligned (by omega)
      have alignedLow := window.aligned
      have start_eq : u32 (low + offset) = low + offset := by
        have := window.word
        exact u32_of_lt (by omega)
      have loads := window.chunkAt ends alignedOffset inWindow
      rw [ceilPage_of_aligned loads.aligned] at written
      extract_lets chunk padded start
      have start_eq' : start = low + offset := start_eq
      have chunk_length : chunk.length =
          min loaderBufferBytes (region.slice (low + offset) high).length := List.length_take
      have pages_eq := chunkPages_spec chunk.length
      have progress : 0 < chunk.length := by
        rw [chunk_length]
        exact Nat.lt_min.mpr ⟨by decide, positive⟩
      rw [start_eq']
      split
      · exact ⟨trivial, fun impossible => by cases impossible⟩
      · refine ⟨trivial, fun filled target₁ step₁ => ?_⟩
        obtain ⟨cells₁, buffer₁⟩ := FlashTarget.buffer_of_step step₁
        cases filled with
        | false => exact ⟨trivial, fun impossible => by cases impossible⟩
        | true =>
            refine ⟨trivial, fun reply target₂ step₂ => ?_⟩
            obtain ⟨same, pagesWritten⟩ := FlashTarget.pages_of_step step₂
            rw [padded_length, cells₁] at same
            rw [padded_length, cells₁, buffer₁ rfl] at pagesWritten
            cases reply with
            | none => exact ⟨trivial, fun impossible => by cases impossible⟩
            | some _ =>
                have written₂ := written.load loads apart same
                  (pagesWritten (Option.some_ne_none _))
                have slice_eq : (region.slice (low + offset) high).drop loaderBufferBytes =
                    region.slice (low + (offset + chunk.length)) high := by
                  rw [drop_min_length, FlashRegion.drop_slice startAt, chunk_length,
                    ← Nat.add_assoc]
                show (programChunks session low (offset + chunk.length)
                  ((region.slice (low + offset) high).drop loaderBufferBytes)).Holds _ _ _ _
                rw [slice_eq]
                refine holds_programChunks_written window ends apart ?_ ?_ ?_
                · omega
                · intro more
                  simp only [flashPage, loaderBufferBytes] at *
                  omega
                · rw [show ceilPage (low + (offset + chunk.length)) =
                    low + offset + flashPage * chunkPages chunk.length by
                      rw [ceilPage, ← Nat.add_assoc, padding_add loads.aligned]
                      omega]
                  exact written₂
  termination_by high - (low + offset)
  decreasing_by
    have ahead : 0 < ((region.slice (low + offset) high).take loaderBufferBytes).length :=
      progress
    omega

theorem holds_tricoreFlashProgram_written
    {target : FlashTarget}
    (window : Window session erased region low high)
    (ends : EndsPadded region high)
    (apart : ∀ other ∈ done, ∀ address, other.Holds address → ¬region.Holds address)
    (ordered : low ≤ high)
    (written : Written session erased before done region low target.cells) :
    (tricoreFlashProgram session low (region.slice low high)).Holds
      (FlashTarget.device session.swapActive) (fun _ => True)
      (fun result last => result = .ok () →
        Written session erased before done region (ceilPage high) last.cells) target := by
  rw [tricoreFlashProgram, if_neg (not_not_intro window.aligned)]
  rw [← ceilPage_of_aligned window.aligned] at written
  have fromStart : (programChunks session low 0 (region.slice (low + 0) high)).Holds _ _ _ _ :=
    holds_programChunks_written window ends apart ordered (fun _ => rfl) written
  exact fromStart

/-! ## The kept sectors of a region -/

/-- The erased addresses of a region that are still to be programmed lie in kept sectors
that are still to come. -/
def Remaining
    (session : FlashSession)
    (erased : Nat → Prop)
    (region : FlashRegion)
    (cursor : Nat)
    (entries : List (Word × Bool)) : Prop :=
  ∀ address, Uncached address → InPages region address → erased (session.command address) →
    cursor ≤ address → ∃ sector : Nat, (sector, true) ∈ entries ∧ sector ≤ address ∧
      address < sector + flashSector

/-- The cursor moves over addresses that nothing is to be programmed at. -/
theorem Written.advance
    (written : Written session erased before done region cursor cells)
    (later : cursor ≤ cursor')
    (skipped : ∀ address, Uncached address → InPages region address →
      erased (session.command address) → cursor ≤ address → cursor' ≤ address) :
    Written session erased before done region cursor' cells where
  finished := written.finished
  current address uncached inRegion below isErased := by
    refine written.current address uncached inRegion ?_ isErased
    by_contra above
    exact absurd (skipped address uncached inRegion isErased (Nat.le_of_not_lt above))
      (Nat.not_le_of_lt below)
  blank address uncached notProgrammed isErased :=
    written.blank address uncached
      (fun programmed => notProgrammed (programmed.mono later)) isErased
  outside := written.outside

/-- An address in the pages of a region. -/
theorem inPages_bounds
    (aligned : region.address % flashPage = 0)
    (inPages : InPages region address) :
    region.address ≤ address ∧ address < ceilPage (region.address + region.length) := by
  simp only [InPages, FlashRegion.Holds, alignDown, ceilPage, padding, flashPage] at *
  omega

/-- An entry that is skipped holds nothing of the region. -/
theorem Remaining.skip
    {sector : Nat}
    {entries : List (Word × Bool)}
    (remaining : Remaining session erased region cursor ((sector, keep) :: entries))
    (aligned : region.address % flashPage = 0)
    (alignedSector : sector % flashSector = 0)
    (skipped : keep = false ∨ sector + flashSector ≤ region.address ∨
      region.address + region.length ≤ sector) :
    Remaining session erased region cursor entries := by
  intro address uncached inRegion isErased above
  obtain ⟨found, member, from_le, below⟩ :=
    remaining address uncached inRegion isErased above
  have bounds := inPages_bounds aligned inRegion
  rcases List.mem_cons.mp member with first | later
  · obtain ⟨rfl, rfl⟩ := Prod.mk.inj first
    simp only [InPages, FlashRegion.Holds, alignDown, flashPage, flashSector] at *
    simp only [Bool.true_eq_false, false_or] at skipped
    omega
  · exact ⟨found, later, from_le, below⟩

/-- Behind the window of a run, what remains lies in the entries after the run. -/
theorem Remaining.run
    {sector more : Nat}
    {rest : List (Word × Bool)}
    (remaining : Remaining session erased region low ((sector, true) :: rest))
    (others : ∀ index, index < more →
      rest[index]? = some (sector + flashSector * (index + 1), true))
    (aligned : region.address % flashPage = 0)
    (alignedSector : sector % flashSector = 0)
    (ordered : low ≤ high)
    (high_eq : high = min (sector + flashSector * (more + 1))
      (region.address + region.length)) :
    Remaining session erased region (ceilPage high) (rest.drop more) := by
  intro address uncached inRegion isErased above
  obtain ⟨-, high_le, -⟩ := ceilPage_spec high
  obtain ⟨found, member, from_le, below⟩ :=
    remaining address uncached inRegion isErased (by omega)
  obtain ⟨-, below_ceil⟩ := inPages_bounds aligned inRegion
  -- the region does not end before the address, so that the run does
  have behindRun : sector + flashSector * (more + 1) ≤ address := by
    by_contra inRun
    have same : high = region.address + region.length := by
      simp only [ceilPage, padding, flashPage, flashSector] at *
      omega
    rw [same] at above
    omega
  refine ⟨found, ?_, from_le, below⟩
  obtain ⟨index, isAt⟩ := List.mem_iff_getElem?.mp member
  cases index with
  | zero =>
      obtain ⟨rfl, -⟩ := Prod.mk.inj (Option.some.inj isAt)
      simp only [flashSector] at *
      omega
  | succ index =>
      rw [List.getElem?_cons_succ] at isAt
      by_cases inRun : index < more
      · obtain ⟨rfl, -⟩ := Prod.mk.inj (Option.some.inj (isAt.symm.trans (others index inRun)))
        simp only [flashSector] at *
        omega
      · refine List.mem_iff_getElem?.mpr ⟨index - more, ?_⟩
        rw [List.getElem?_drop, ← isAt]
        congr 1
        omega

/-- `program_kept`: the pages of a region in the kept sectors. -/
theorem holds_programKept_written
    {entries : List (Word × Bool)}
    {cursor : Nat}
    {target : FlashTarget}
    (accepted : Accepted session regions (entries.map Prod.fst))
    (erasedKept : ∀ sector, (sector, true) ∈ entries → ∀ address,
      InSector session sector address → erased address)
    (aligned : region.address % flashPage = 0)
    (fits : region.address + region.length < 2 ^ 32)
    (apart : ∀ other ∈ done, ∀ address, other.Holds address → ¬region.Holds address)
    (behind : ∀ entry ∈ entries, cursor ≤ max entry.1 region.address)
    (low_le : cursor ≤ ceilPage (region.address + region.length))
    (remaining : Remaining session erased region cursor entries)
    (written : Written session erased before done region cursor target.cells) :
    (programKept session region entries).Holds (FlashTarget.device session.swapActive)
      (fun _ => True)
      (fun result last => result = .ok () → Written session erased before done region
        (ceilPage (region.address + region.length)) last.cells) target := by
  match entries with
  | [] =>
      rw [programKept]
      refine ⟨trivial, fun _ => written.advance low_le fun address uncached inRegion isErased
        above => ?_⟩
      obtain ⟨sector, member, -⟩ := remaining address uncached inRegion isErased above
      exact absurd member List.not_mem_nil
  | (sector, keep) :: rest =>
      have programmable : ∀ entry ∈ (sector, keep) :: rest,
          Programmable session.chipid session.swapActive entry.1 := fun entry inEntries =>
        accepted.programmable _ (List.mem_map_of_mem inEntries)
      have first := programmable (sector, keep) List.mem_cons_self
      have small : sector < 0xA0C00000 := first.sector_bounds.2
      have next_eq : u32 (sector + flashSector) = sector + flashSector :=
        u32_of_lt (Nat.lt_trans (Nat.add_lt_add_right small _) (by decide))
      have stop_eq : region.stop = region.address + region.length := u32_of_lt fits
      rw [programKept, next_eq, stop_eq]
      split
      · next skipped =>
          refine holds_programKept_written (accepted.sublist (List.sublist_cons_self _ _))
            (fun next inRest => erasedKept next (List.mem_cons_of_mem _ inRest)) aligned fits
            apart (fun entry inRest => behind entry (List.mem_cons_of_mem _ inRest)) low_le
            (remaining.skip aligned first.aligned ?_) written
          simpa only [Bool.not_eq_true'] using skipped
      · next chosen =>
          simp only [not_or, Bool.not_eq_true', Bool.not_eq_false, Nat.not_le] at chosen
          obtain ⟨rfl, reaches, begins⟩ := chosen
          obtain ⟨more, last_eq, rest_eq, -, others⟩ := keptRun_spec
            (region.address + region.length) sector rest small fun entry inRest =>
              (programmable entry (List.mem_cons_of_mem _ inRest)).sector_bounds.2
          have inEntries := entry_of_run others
          have programmableRun : ∀ index, index ≤ more → Programmable session.chipid
              session.swapActive (sector + flashSector * index) :=
            fun index inRun => programmable _ (inEntries index inRun)
          have smallLast := (programmableRun more (Nat.le_refl _)).sector_bounds.2
          have top_eq : u32 (sector + flashSector * more + flashSector) =
              sector + flashSector * (more + 1) := by
            rw [u32_of_lt]
            · ring
            · simp only [flashSector] at *
              omega
          extract_lets last low top high
          have low_eq : low = max sector region.address := ite_gt_eq_max _ _
          have high_eq : high = min (sector + flashSector * (more + 1))
              (region.address + region.length) := by
            rw [← top_eq, ← last_eq]
            exact ite_lt_eq_min _ _
          have window : Window session erased region low high :=
            window_of_run programmableRun (fun index inRun => erasedKept _ (inEntries index inRun))
              aligned stop_eq low_eq (stop_eq ▸ high_eq) reaches
          clear_value low high
          have sector_le : sector + flashSector ≤ sector + flashSector * (more + 1) :=
            Nat.add_le_add_left (Nat.le_mul_of_pos_right _ (Nat.succ_pos _)) _
          have ordered : low ≤ high := window_ordered low_eq high_eq
            (Nat.lt_of_lt_of_le reaches sector_le) (Nat.le_add_right _ _)
            (Nat.lt_of_lt_of_le (Nat.lt_add_of_pos_right (by decide)) sector_le) begins
          have ends : EndsPadded region high := by
            have alignedFirst := first.aligned
            simp only [EndsPadded, flashPage, flashSector] at *
            omega
          have behindLow : cursor ≤ low := low_eq ▸ behind _ List.mem_cons_self
          -- what remains lies at or behind the first kept sector
          have fromLow : ∀ address, Uncached address → InPages region address →
              erased (session.command address) → cursor ≤ address → low ≤ address := by
            intro address uncached inRegion isErased above
            obtain ⟨found, member, from_le, -⟩ := remaining address uncached inRegion isErased above
            obtain ⟨from_start, -⟩ := inPages_bounds aligned inRegion
            have sector_le_found : sector ≤ found := by
              rcases List.mem_cons.mp member with same | later
              · exact (Prod.mk.inj same).1 ▸ Nat.le_refl _
              · exact Nat.le_of_lt (List.rel_of_pairwise_cons accepted.ascending
                  (List.mem_map_of_mem later))
            rw [low_eq]
            exact Nat.max_le.mpr ⟨Nat.le_trans sector_le_found from_le, from_start⟩
          have remainingLow : Remaining session erased region low ((sector, true) :: rest) :=
            fun address uncached inRegion isErased above =>
              remaining address uncached inRegion isErased (Nat.le_trans behindLow above)
          rw [sub32_of_le ordered window.word]
          refine (holds_tricoreFlashProgram_written window ends apart ordered
            (written.advance behindLow fromLow)).bind fun result target₁ _ programmed => ?_
          cases result with
          | error fault => exact ⟨trivial, fun impossible => by cases impossible⟩
          | ok _ =>
              rw [rest_eq]
              have later : (rest.drop more).Sublist ((sector, true) :: rest) :=
                (List.drop_sublist _ _).cons _
              refine holds_programKept_written (accepted.sublist (later.map _))
                (fun next inLater => erasedKept next (later.subset inLater)) aligned fits apart
                ?_ ?_ (remainingLow.run others aligned first.aligned ordered high_eq)
                (programmed rfl)
              · intro next inLater
                have alignedNext := (programmable next (later.subset inLater)).aligned
                have after := last_lt_of_mem_drop accepted.ascending others inLater
                have high_le : high ≤ sector + flashSector * (more + 1) :=
                  high_eq ▸ Nat.min_le_left _ _
                exact Nat.le_trans (ceilPage_le_next first.aligned alignedNext after high_le)
                  (Nat.le_max_left _ _)
              · simp only [ceilPage, padding, flashPage, flashSector] at *
                omega
  termination_by entries.length
  decreasing_by
    · simp only [List.length_drop, List.length_cons]
      omega
    · exact Nat.lt_succ_self _

/-! ## All regions -/

/-- The cells when the erased pages of some regions are programmed, and no others. -/
structure Imaged
    (session : FlashSession)
    (erased : Nat → Prop)
    (before : Nat → Byte)
    (done : List FlashRegion)
    (cells : Nat → Byte) : Prop where
  image : ∀ region ∈ done, ∀ address, Uncached address → InPages region address →
    erased (session.command address) → cells (session.command address) = region.padded address
  blank : ∀ address, Uncached address → (∀ region ∈ done, ¬InPages region address) →
    erased (session.command address) → cells (session.command address) = flashErased
  outside : ∀ command, ¬erased command → cells command = before command

theorem Imaged.enter
    (imaged : Imaged session erased before done cells)
    (aligned : region.address % flashPage = 0) :
    Written session erased before done region region.address cells where
  finished := imaged.image
  current _ _ inRegion below _ :=
    absurd (inPages_bounds aligned inRegion).1 (Nat.not_le_of_lt below)
  blank address uncached notProgrammed isErased :=
    imaged.blank address uncached
      (fun other isDone inOther => notProgrammed (Or.inl ⟨other, isDone, inOther⟩)) isErased
  outside := imaged.outside

theorem Written.leave
    (written : Written session erased before done region
      (ceilPage (region.address + region.length)) cells)
    (aligned : region.address % flashPage = 0) :
    Imaged session erased before (done ++ [region]) cells where
  image other isDone address uncached inOther isErased := by
    rcases List.mem_append.mp isDone with isDone | last
    · exact written.finished other isDone address uncached inOther isErased
    · obtain rfl := List.mem_singleton.mp last
      exact written.current address uncached inOther (inPages_bounds aligned inOther).2 isErased
  blank address uncached inNone isErased := by
    refine written.blank address uncached ?_ isErased
    rintro (⟨other, isDone, inOther⟩ | ⟨inRegion, -⟩)
    · exact inNone other (List.mem_append_left _ isDone) inOther
    · exact inNone region (List.mem_append_right _ (List.mem_singleton_self _)) inRegion
  outside := written.outside

/-- The cells of some sectors, as commands take them. -/
def InSectors (session : FlashSession) (sectors : List Word) (command : Nat) : Prop :=
  ∃ sector ∈ sectors, InSector session sector command

/-- An address whose cell is one of a sector lies in the sector. -/
theorem address_of_inSector
    {sector address : Nat}
    (programmable : Programmable session.chipid session.swapActive sector)
    (uncached : Uncached address)
    (inSector : InSector session sector (session.command address)) :
    sector ≤ address ∧ address < sector + flashSector := by
  obtain ⟨above, below⟩ := inSector
  have inside : session.command address - session.command sector < flashSector := by omega
  have command := programmable.commandAddress_add inside
  have bounds := programmable.sector_bounds
  have same : commandAddress session.swapActive address = commandAddress session.swapActive
      (sector + (session.command address - session.command sector)) := by
    rw [command]
    simp only [FlashSession.command] at above ⊢
    omega
  have uncached' : Uncached (sector + (session.command address - session.command sector)) :=
    uncached_iff.mpr (Or.inr (by omega))
  have equal := commandAddress_injective uncached uncached' same
  omega

/-- Before a region is programmed, all of its erased pages are still to come. -/
theorem remaining_start
    {kept : List (Word × Bool)}
    (accepted : Accepted session regions (kept.map Prod.fst))
    (region : FlashRegion) :
    Remaining session (InSectors session (eraseList kept)) region region.address kept := by
  intro address uncached _ isErased _
  obtain ⟨sector, member, inSector⟩ := isErased
  obtain ⟨⟨found, keep⟩, inKept, rfl⟩ := List.mem_map.mp member
  obtain ⟨inKept, rfl⟩ : (found, keep) ∈ kept ∧ keep = true := List.mem_filter.mp inKept
  have programmable := accepted.programmable found (List.mem_map_of_mem inKept)
  exact ⟨found, inKept, address_of_inSector programmable uncached inSector⟩

theorem inSectors_of_kept
    {kept : List (Word × Bool)}
    (member : (sector, true) ∈ kept)
    (inSector : InSector session sector command) :
    InSectors session (eraseList kept) command :=
  ⟨sector, List.mem_map.mpr ⟨(sector, true), List.mem_filter.mpr ⟨member, rfl⟩, rfl⟩, inSector⟩

/-- The programming stage leaves the image in the erased sectors. -/
theorem holds_programRegions_imaged
    {kept : List (Word × Bool)}
    {target : FlashTarget}
    (placed : WellPlaced regions)
    (room : ∀ region ∈ regions, region.address + region.length < 2 ^ 32)
    (accepted : Accepted session regions (kept.map Prod.fst))
    (done rest : List FlashRegion)
    (regions_eq : done ++ rest = regions)
    (imaged : Imaged session (InSectors session (eraseList kept)) before done target.cells) :
    (programRegions session kept rest).Holds (FlashTarget.device session.swapActive)
      (fun _ => True)
      (fun result last => result = .ok () →
        Imaged session (InSectors session (eraseList kept)) before regions last.cells) target := by
  induction rest generalizing done target with
  | nil =>
      rw [List.append_nil] at regions_eq
      exact ⟨trivial, fun _ => regions_eq ▸ imaged⟩
  | cons region rest inductionHypothesis =>
      have member : region ∈ regions := regions_eq ▸ List.mem_append_right _ List.mem_cons_self
      have disjoint := placed.disjoint
      rw [← regions_eq, List.pairwise_append] at disjoint
      have apart := fun other isDone => disjoint.2.2 other isDone region List.mem_cons_self
      have aligned := placed.aligned region member
      obtain ⟨-, end_le, -⟩ := ceilPage_spec (region.address + region.length)
      refine (holds_programKept_written accepted
        (fun _ member _ inSector => inSectors_of_kept member inSector) aligned
        (room region member) apart (fun _ _ => Nat.le_max_right _ _)
        (Nat.le_trans (Nat.le_add_right _ _) end_le) (remaining_start accepted region)
        (imaged.enter aligned)).bind fun result target₁ _ programmed => ?_
      cases result with
      | error fault => exact ⟨trivial, fun impossible => by cases impossible⟩
      | ok _ =>
          refine inductionHypothesis (done ++ [region]) ?_ ((programmed rfl).leave aligned)
          rw [List.append_assoc]
          exact regions_eq

end Flash
end TriCoreDap
