import TriCoreDap.Flash.Erasing

/-!
# The programming stage

Every load of pages covers pages of one region that were erased and not loaded
before, although only the first address of a chunk is checked and translated.
-/

namespace TriCoreDap
namespace Flash

open Probe

/-- The address is in a page that has bytes of the region. -/
def InPages (region : FlashRegion) (address : Nat) : Prop :=
  region.Holds (alignDown address flashPage)

/-- What is programmed when some regions are done and one is at `cursor`. -/
def Programmed
    (done : List FlashRegion)
    (region : FlashRegion)
    (cursor address : Nat) : Prop :=
  (∃ other ∈ done, InPages other address) ∨ InPages region address ∧ address < cursor

/-- The addresses commands take for some addresses. -/
def AsCommands (session : FlashSession) (addresses : Nat → Prop) (command : Nat) : Prop :=
  ∃ address, Uncached address ∧ addresses address ∧ session.command address = command

/-- The end of the page. -/
def ceilPage (address : Nat) : Nat := address + padding address

/-- A part of a region in erased sectors that are translated alike. -/
structure Window
    (session : FlashSession)
    (erased : Nat → Prop)
    (region : FlashRegion)
    (low high : Nat) : Prop where
  aligned : low % flashPage = 0
  start : region.address ≤ low
  inside : high ≤ region.address + region.length
  word : high < 2 ^ 32
  command : ∀ offset, low + offset < ceilPage high →
    session.command (low + offset) = session.command low + offset
  uncached : ∀ offset, low + offset < ceilPage high → Uncached (low + offset)
  populated : ∀ offset, low + offset < ceilPage high →
    Populated session.layout (session.command low + offset)
  erased : ∀ offset, low + offset < ceilPage high → erased (session.command low + offset)

variable {session : FlashSession} {regions done : List FlashRegion}
  {region : FlashRegion} {erased loaded : Nat → Prop} {log : List Event}
  {low high offset cursor : Nat} {data : List Byte}

theorem ceilPage_spec (address : Nat) :
    ceilPage address % flashPage = 0 ∧ address ≤ ceilPage address ∧
      ceilPage address < address + flashPage := by
  simp only [ceilPage, padding, flashPage]
  omega

theorem ceilPage_of_aligned (aligned : address % flashPage = 0) :
    ceilPage address = address := by
  simp only [ceilPage, padding, flashPage] at *
  omega

theorem padding_add (aligned : address % flashPage = 0) (length : Nat) :
    padding (address + length) = padding length := by
  simp only [padding, flashPage] at *
  omega

/-- How many pages a chunk of `length` bytes takes. -/
def chunkPages (length : Nat) : Nat := (length + padding length) / flashPage

theorem chunkPages_spec (length : Nat) :
    flashPage * chunkPages length = length + padding length := by
  simp only [chunkPages, padding, flashPage]
  omega

/-- The chunk at `offset` may be loaded. -/
theorem Window.loadsPages
    (window : Window session erased region low high)
    (apart : ∀ other ∈ done, ∀ address, other.Holds address → ¬region.Holds address)
    (aligned : offset % flashPage = 0)
    (length : Nat)
    (inWindow : low + offset + length ≤ high)
    (covered : low + offset + length + padding length ≤ ceilPage high)
    (guarded : Guarded session regions erased
      (AsCommands session (Programmed done region (low + offset))) log) :
    LoadsPages session log region (low + offset) (session.command (low + offset))
      (chunkPages length) := by
  have alignedLow := window.aligned
  have start := window.start
  have inside := window.inside
  have pages_eq := chunkPages_spec length
  have nonempty (more : Nat) (inChunk : more < flashPage * chunkPages length) :
      low + (offset + more) < ceilPage high := by
    omega
  have inRegion : ∀ more, more < flashPage * chunkPages length →
      region.Holds (alignDown (low + offset + more) flashPage) := by
    intro more inChunk
    simp only [FlashRegion.Holds, alignDown, padding, flashPage] at *
    omega
  have command (more : Nat) (inChunk : more < flashPage * chunkPages length) :
      session.command (low + offset + more) = session.command (low + offset) + more := by
    rw [Nat.add_assoc, window.command _ (nonempty more inChunk), window.command _ (by omega),
      Nat.add_assoc]
  have commandLow (more : Nat) (inChunk : more < flashPage * chunkPages length) :
      session.command (low + offset) + more = session.command low + (offset + more) := by
    rw [window.command _ (by omega), Nat.add_assoc]
  constructor
  · simp only [flashPage] at *
    omega
  · omega
  · intro index inChunk
    simp only [padding, flashPage] at *
    omega
  · exact command
  · intro more inChunk
    rw [commandLow more inChunk]
    exact window.populated _ (nonempty more inChunk)
  · intro more inChunk
    rw [commandLow more inChunk]
    exact guarded.erasedIn _ (window.erased _ (nonempty more inChunk))
  · intro more inChunk loadedBefore
    obtain ⟨address, uncached, programmed, same⟩ := guarded.loadedIn _ loadedBefore
    rw [← command more inChunk] at same
    have uncachedHere : Uncached (low + offset + more) := by
      rw [Nat.add_assoc]
      exact window.uncached _ (nonempty more inChunk)
    obtain rfl := commandAddress_injective uncached uncachedHere same
    rcases programmed with ⟨other, isDone, inOther⟩ | ⟨-, before⟩
    · exact apart other isDone _ inOther (inRegion more inChunk)
    · omega

/-- Loading the chunk moves the cursor to the end of its last page. -/
theorem Guarded.load
    (guarded : Guarded session regions erased
      (AsCommands session (Programmed done region (low + offset))) log)
    (window : Window session erased region low high)
    (member : region ∈ regions)
    (length : Nat)
    (inWindow : low + offset + length ≤ high)
    (covered : low + offset + length + padding length ≤ ceilPage high)
    (loads : LoadsPages session log region (low + offset) (session.command (low + offset))
      (chunkPages length))
    (timeoutMs : Nat)
    (reply : Option Word) :
    Guarded session regions erased
      (AsCommands session (Programmed done region (low + offset + length + padding length)))
      (log ++ [⟨.runLoader .program (session.command (low + offset)) (chunkPages length)
        timeoutMs, reply⟩]) := by
  have pages_eq := chunkPages_spec length
  constructor
  · refine guarded.logged.append _ fun command some_eq => ?_
    obtain rfl := Option.some.inj some_eq
    exact ⟨region, member, low + offset, loads⟩
  · exact fun address inErased => (guarded.erasedIn address inErased).append _
  · rintro address ⟨addr, pages, timeoutMs', reply', inLog, above, below⟩
    rcases List.mem_append.mp inLog with before | now
    · obtain ⟨source, uncached, programmed, same⟩ :=
        guarded.loadedIn address ⟨addr, pages, timeoutMs', reply', before, above, below⟩
      exact ⟨source, uncached, programmed.imp id fun current =>
        ⟨current.1, by omega⟩, same⟩
    · have same := congrArg Sigma.fst (List.mem_singleton.mp now)
      injection same with _ addr_eq pages_eq'
      subst addr_eq pages_eq'
      have inChunk : address - session.command (low + offset) <
          flashPage * chunkPages length := by omega
      refine ⟨low + offset + (address - session.command (low + offset)), ?_, Or.inr ⟨?_, ?_⟩, ?_⟩
      · rw [Nat.add_assoc]
        exact window.uncached _ (by omega)
      · have start := window.start
        have inside := window.inside
        have alignedFirst := loads.aligned
        simp only [InPages, FlashRegion.Holds, alignDown, padding, flashPage] at *
        omega
      · omega
      · rw [loads.command _ inChunk]
        omega

/-- What was permitted so far. -/
def AllPermitted (session : FlashSession) (regions : List FlashRegion) : List Event → Prop :=
  Logged (Permitted session regions)

theorem padded_length (chunk : List Byte) :
    (chunk ++ List.replicate (padding chunk.length) flashErased).length / flashPage =
      chunkPages chunk.length := by
  rw [List.length_append, List.length_replicate, chunkPages]

theorem calm_writeBlock (addr : Word) (data : List Byte) : Calm (.writeBlock addr data) :=
  fun _ => rfl

/-- The loop of `tricore_flash_program` over a window. -/
theorem holds_programChunks
    {log : List Event}
    {offset : Nat}
    (window : Window session erased region low high)
    (member : region ∈ regions)
    (apart : ∀ other ∈ done, ∀ address, other.Holds address → ¬region.Holds address)
    (data : List Byte)
    (size : low + offset + data.length = high)
    (aligned : data ≠ [] → offset % flashPage = 0)
    (guarded : Guarded session regions erased
      (AsCommands session (Programmed done region (ceilPage (low + offset)))) log) :
    (programChunks session low offset data).Holds logging (AllPermitted session regions)
      (fun result log' => result = .ok () → Guarded session regions erased
        (AsCommands session (Programmed done region (ceilPage high))) log') log := by
  rw [programChunks]
  split
  · next empty =>
      rw [empty, List.length_nil, Nat.add_zero] at size
      exact ⟨guarded.logged, fun _ => size ▸ guarded⟩
  · next nonempty =>
      have positive := List.length_pos_iff.mpr nonempty
      have alignedOffset := aligned nonempty
      have start_eq : u32 (low + offset) = low + offset := by
        have := window.word
        exact u32_of_lt (by omega)
      have ceil_eq : ceilPage (low + offset) = low + offset := by
        have alignedLow := window.aligned
        apply ceilPage_of_aligned
        simp only [flashPage] at *
        omega
      rw [ceil_eq] at guarded
      extract_lets chunk padded start
      have chunk_length : chunk.length = min loaderBufferBytes data.length :=
        List.length_take
      have inWindow : low + offset + chunk.length ≤ high := by omega
      have covered : low + offset + chunk.length + padding chunk.length ≤ ceilPage high := by
        have alignedLow := window.aligned
        simp only [ceilPage, padding, flashPage, loaderBufferBytes] at *
        omega
      have start_eq' : start = low + offset := start_eq
      rw [start_eq']
      split
      · exact ⟨guarded.logged, fun impossible => nomatch impossible⟩
      · refine ⟨guarded.logged, fun filled log₁ step₁ => ?_⟩
        have guarded₁ := Guarded.calm _ _ _ _ (calm_writeBlock _ _) guarded step₁
        cases filled with
        | false => exact ⟨guarded₁.logged, fun impossible => nomatch impossible⟩
        | true =>
            refine ⟨guarded₁.logged, fun reply log₂ step₂ => ?_⟩
            obtain rfl := step₂
            have loads := window.loadsPages apart alignedOffset chunk.length inWindow covered
              guarded₁
            have guarded₂ := guarded₁.load window member chunk.length inWindow covered loads
              20000 reply
            rw [padded_length]
            cases reply with
            | none => exact ⟨guarded₂.logged, fun impossible => nomatch impossible⟩
            | some _ =>
                refine holds_programChunks window member apart (data.drop loaderBufferBytes)
                  ?_ ?_ ?_
                · rw [List.length_drop]
                  omega
                · intro more
                  have left := List.length_pos_iff.mpr more
                  rw [List.length_drop] at left
                  simp only [flashPage, loaderBufferBytes] at *
                  omega
                · rwa [← Nat.add_assoc, ceilPage, padding_add (ceil_eq ▸ (ceilPage_spec _).1)]
  termination_by data.length
  decreasing_by
    have _nonempty : 0 < data.length := List.length_pos_iff.mpr ‹¬data = []›
    rw [List.length_drop, loaderBufferBytes]
    omega

theorem holds_tricoreFlashProgram
    (window : Window session erased region low high)
    (member : region ∈ regions)
    (apart : ∀ other ∈ done, ∀ address, other.Holds address → ¬region.Holds address)
    (data : List Byte)
    (size : low + data.length = high)
    (guarded : Guarded session regions erased
      (AsCommands session (Programmed done region low)) log) :
    (tricoreFlashProgram session low data).Holds logging (AllPermitted session regions)
      (fun result log' => result = .ok () → Guarded session regions erased
        (AsCommands session (Programmed done region (ceilPage high))) log') log := by
  rw [tricoreFlashProgram, if_neg (not_not_intro window.aligned)]
  refine holds_programChunks window member apart data size (fun _ => rfl) ?_
  rwa [Nat.add_zero, ceilPage_of_aligned window.aligned]

/-! ## Runs of kept sectors -/

/-- The sectors after the first of a run are kept and follow each other. -/
theorem keptRun_spec
    (stop last : Nat)
    (entries : List (Word × Bool))
    (small : last < 0xA0C00000)
    (bounded : ∀ entry ∈ entries, entry.1 < 0xA0C00000) :
    ∃ more, (keptRun stop last entries).1 = last + flashSector * more ∧
      (keptRun stop last entries).2 = entries.drop more ∧ more ≤ entries.length ∧
        ∀ index, index < more →
          entries[index]? = some (last + flashSector * (index + 1), true) := by
  induction entries generalizing last with
  | nil => exact ⟨0, rfl, rfl, Nat.le_refl _, fun _ impossible => absurd impossible (Nat.not_lt_zero _)⟩
  | cons entry rest inductionHypothesis =>
      obtain ⟨sector, keep⟩ := entry
      have smallSector : sector < 0xA0C00000 := bounded (sector, keep) List.mem_cons_self
      rw [keptRun]
      split
      · next follows =>
          obtain ⟨kept, sector_eq, -⟩ := follows
          have next_eq : u32 (last + flashSector) = last + flashSector := by
            apply u32_of_lt
            simp only [flashSector]
            omega
          rw [next_eq] at sector_eq
          obtain ⟨more, last_eq, rest_eq, bound, others⟩ := inductionHypothesis sector
            smallSector fun entry member => bounded entry (List.mem_cons_of_mem _ member)
          refine ⟨more + 1, ?_, ?_, ?_, ?_⟩
          · rw [last_eq, sector_eq]
            ring
          · rw [rest_eq, List.drop_succ_cons]
          · simpa using bound
          · intro index inRun
            cases index with
            | zero => simp [kept, sector_eq]
            | succ index =>
                have next := others index (Nat.lt_of_succ_lt_succ inRun)
                rw [List.getElem?_cons_succ, next, sector_eq,
                  show last + flashSector + flashSector * (index + 1) =
                    last + flashSector * (index + 1 + 1) by ring]
      · exact ⟨0, rfl, rfl, Nat.zero_le _, fun _ impossible => absurd impossible (Nat.not_lt_zero _)⟩

/-- Consecutive sectors that can be programmed are translated alike. -/
theorem command_run
    (programmable : ∀ index, index ≤ more →
      Programmable session.chipid session.swapActive (sector + flashSector * index))
    (inRun : offset < flashSector * (more + 1)) :
    session.command (sector + offset) = session.command sector + offset := by
  have sectors : ∀ index, index ≤ more → session.command (sector + flashSector * index) =
      session.command sector + flashSector * index := by
    intro index bound
    induction index with
    | zero => rfl
    | succ index inductionHypothesis =>
        have next_eq : sector + flashSector * (index + 1) =
            sector + flashSector * index + flashSector := by
          ring
        have next := programmable (index + 1) bound
        rw [next_eq] at next ⊢
        have step : session.command (sector + flashSector * index + flashSector) =
            session.command (sector + flashSector * index) + flashSector :=
          (programmable index (by omega)).commandAddress_next next
        rw [step, inductionHypothesis (by omega)]
        ring
  have index_le : offset / flashSector ≤ more := by
    simp only [flashSector] at *
    omega
  have split : offset = flashSector * (offset / flashSector) + offset % flashSector :=
    (Nat.div_add_mod _ _).symm
  have inSector : offset % flashSector < flashSector := Nat.mod_lt _ (by decide)
  have within := (programmable _ index_le).commandAddress_add inSector
  calc
    session.command (sector + offset)
        = session.command (sector + flashSector * (offset / flashSector) +
            offset % flashSector) := by rw [Nat.add_assoc, ← split]
    _ = session.command (sector + flashSector * (offset / flashSector)) +
          offset % flashSector := within
    _ = session.command sector + offset := by rw [sectors _ index_le, Nat.add_assoc, ← split]

/-- Every byte of a run is populated and was erased. -/
theorem populated_erased_run
    (programmable : ∀ index, index ≤ more →
      Programmable session.chipid session.swapActive (sector + flashSector * index))
    (erasedRun : ∀ index, index ≤ more → ∀ address,
      InSector session (sector + flashSector * index) address → erased address)
    (inRun : offset < flashSector * (more + 1)) :
    Uncached (sector + offset) ∧
      Populated session.layout (session.command sector + offset) ∧
        erased (session.command sector + offset) := by
  have index_le : offset / flashSector ≤ more := by
    simp only [flashSector] at *
    omega
  have split : flashSector * (offset / flashSector) + offset % flashSector = offset :=
    Nat.div_add_mod _ _
  have inSector : offset % flashSector < flashSector := Nat.mod_lt _ (by decide)
  have first := (programmable 0 (Nat.zero_le _)).sector_bounds.1
  have command_eq : session.command sector + offset =
      session.command (sector + flashSector * (offset / flashSector)) +
        offset % flashSector := by
    rw [command_run programmable (Nat.lt_of_le_of_lt (by omega) inRun), Nat.add_assoc, split]
  refine ⟨uncached_iff.mpr (Or.inr (by omega)), ?_, ?_⟩
  · rw [command_eq]
    exact (programmable _ index_le).populated_add inSector
  · rw [command_eq]
    exact erasedRun _ index_le _ ⟨Nat.le_add_right _ _, Nat.add_lt_add_left inSector _⟩

/-- The part of a region that lies in a run of kept sectors. -/
theorem window_of_run
    (programmable : ∀ index, index ≤ more →
      Programmable session.chipid session.swapActive (sector + flashSector * index))
    (erasedRun : ∀ index, index ≤ more → ∀ address,
      InSector session (sector + flashSector * index) address → erased address)
    (aligned : region.address % flashPage = 0)
    (fits : region.stop = region.address + region.length)
    (low_eq : low = max sector region.address)
    (high_eq : high = min (sector + flashSector * (more + 1)) region.stop)
    (reaches : region.address < sector + flashSector) :
    Window session erased region low high := by
  have alignedSector := (programmable 0 (Nat.zero_le _)).aligned
  have word : region.stop < 2 ^ 32 := Nat.mod_lt _ (by decide)
  have alignedLow : low % flashPage = 0 := by
    simp only [flashSector, flashPage] at *
    omega
  have ceil_le : ceilPage high ≤ sector + flashSector * (more + 1) := by
    simp only [ceilPage, padding, flashSector, flashPage] at *
    omega
  have lowInRun : low - sector < flashSector * (more + 1) := by
    simp only [flashSector] at *
    omega
  have inRun : ∀ offset, low + offset < ceilPage high →
      low - sector + offset < flashSector * (more + 1) := by
    intro offset inWindow
    omega
  have low_split : low = sector + (low - sector) := by omega
  have command_low : session.command low = session.command sector + (low - sector) := by
    rw [← command_run programmable lowInRun, ← low_split]
  have command (offset : Nat) (inWindow : low + offset < ceilPage high) :
      session.command (low + offset) = session.command sector + (low - sector + offset) := by
    rw [← command_run programmable (inRun offset inWindow), ← Nat.add_assoc, ← low_split]
  constructor
  · exact alignedLow
  · omega
  · omega
  · omega
  · intro offset inWindow
    rw [command offset inWindow, command_low, Nat.add_assoc]
  · intro offset inWindow
    have facts := populated_erased_run programmable erasedRun (inRun offset inWindow)
    rw [low_split, Nat.add_assoc]
    exact facts.1
  · intro offset inWindow
    have facts := populated_erased_run programmable erasedRun (inRun offset inWindow)
    rw [command_low, Nat.add_assoc]
    exact facts.2.1
  · intro offset inWindow
    have facts := populated_erased_run programmable erasedRun (inRun offset inWindow)
    rw [command_low, Nat.add_assoc]
    exact facts.2.2

/-! ## The kept sectors of a region -/

theorem Programmed.mono
    (programmed : Programmed done region cursor address)
    (later : cursor ≤ cursor') : Programmed done region cursor' address :=
  programmed.imp id fun current => ⟨current.1, Nat.lt_of_lt_of_le current.2 later⟩

theorem Guarded.advance
    (guarded : Guarded session regions erased
      (AsCommands session (Programmed done region cursor)) log)
    (later : cursor ≤ cursor') :
    Guarded session regions erased
      (AsCommands session (Programmed done region cursor')) log :=
  guarded.mono (fun _ => id) fun _ ⟨address, uncached, programmed, same⟩ =>
    ⟨address, uncached, programmed.mono later, same⟩

/-- The end of a region that is not empty for the code. -/
theorem stop_eq_of_lt
    (fits : region.address + region.length ≤ 2 ^ 32)
    (before : sector < region.stop) :
    region.stop = region.address + region.length := by
  simp only [FlashRegion.stop, u32] at *
  omega

theorem ite_gt_eq_max (left right : Nat) :
    (if left > right then left else right) = max left right := by
  split
  · omega
  · omega

theorem ite_lt_eq_min (left right : Nat) :
    (if left < right then left else right) = min left right := by
  split
  · omega
  · omega

theorem window_ordered
    {top stop address : Nat}
    (low_eq : low = max sector address)
    (high_eq : high = min top stop)
    (reaches : address < top)
    (fits : address ≤ stop)
    (first : sector < top)
    (begins : sector < stop) : low ≤ high := by
  omega

/-- The data of a window reach to its end. -/
theorem length_window
    (start : region.address ≤ low)
    (ordered : low ≤ high)
    (inside : high ≤ region.address + region.length)
    (word : high < 2 ^ 32) :
    low + ((region.data.drop (low - region.address)).take (sub32 high low)).length = high := by
  rw [sub32_of_le ordered word, List.length_take, List.length_drop]
  rw [FlashRegion.length] at inside
  omega

/-- The sectors of a run, from the entries they stand in. -/
theorem entry_of_run
    {rest : List (Word × Bool)}
    (others : ∀ index, index < more →
      rest[index]? = some (sector + flashSector * (index + 1), true))
    (index : Nat)
    (inRun : index ≤ more) :
    (sector + flashSector * index, true) ∈ (sector, true) :: rest := by
  cases index with
  | zero => exact List.mem_cons_self
  | succ index => exact List.mem_cons_of_mem _ (List.mem_of_getElem? (others index inRun))

/-- What comes after a run lies behind its last sector. -/
theorem last_lt_of_mem_drop
    {rest : List (Word × Bool)}
    (ascending : (((sector, true) :: rest).map Prod.fst).Pairwise (· < ·))
    (others : ∀ index, index < more →
      rest[index]? = some (sector + flashSector * (index + 1), true))
    (member : next ∈ rest.drop more) :
    sector + flashSector * more < next.1 := by
  have last : ((sector, true) :: rest)[more]? = some (sector + flashSector * more, true) := by
    cases more with
    | zero => rfl
    | succ more => exact others more (Nat.lt_succ_self _)
  have inTake : (sector + flashSector * more, true) ∈ ((sector, true) :: rest).take (more + 1) :=
    List.mem_iff_getElem?.mpr ⟨more, by
      rw [List.getElem?_take, if_pos (Nat.lt_succ_self _), last]⟩
  rw [← List.take_append_drop (more + 1) ((sector, true) :: rest), List.map_append,
    List.pairwise_append] at ascending
  exact ascending.2.2 _ (List.mem_map_of_mem inTake) _ (List.mem_map_of_mem member)

theorem ceilPage_le_next
    {next : Nat}
    (alignedFirst : sector % flashSector = 0)
    (alignedNext : next % flashSector = 0)
    (after : sector + flashSector * more < next)
    (high_le : high ≤ sector + flashSector * (more + 1)) :
    ceilPage high ≤ next := by
  simp only [ceilPage, padding, flashPage, flashSector] at *
  omega

/-- `program_kept`: the loads of one region. -/
theorem holds_programKept
    {entries : List (Word × Bool)}
    {cursor : Nat}
    {log : List Event}
    (accepted : Accepted session regions (entries.map Prod.fst))
    (erasedKept : ∀ sector, (sector, true) ∈ entries → ∀ address,
      InSector session sector address → erased address)
    (member : region ∈ regions)
    (aligned : region.address % flashPage = 0)
    (fits : region.address + region.length ≤ 2 ^ 32)
    (apart : ∀ other ∈ done, ∀ address, other.Holds address → ¬region.Holds address)
    (behind : ∀ entry ∈ entries, cursor ≤ max entry.1 region.address)
    (guarded : Guarded session regions erased
      (AsCommands session (Programmed done region cursor)) log) :
    (programKept session region entries).Holds logging (AllPermitted session regions)
      (fun result log' => result = .ok () → ∃ cursor', Guarded session regions erased
        (AsCommands session (Programmed done region cursor')) log') log := by
  match entries with
  | [] =>
      rw [programKept]
      exact ⟨guarded.logged, fun _ => ⟨cursor, guarded⟩⟩
  | (sector, keep) :: rest =>
      have programmable : ∀ entry ∈ (sector, keep) :: rest,
          Programmable session.chipid session.swapActive entry.1 := fun entry inEntries =>
        accepted.programmable _ (List.mem_map_of_mem inEntries)
      rw [programKept]
      split
      · exact holds_programKept (accepted.sublist (List.sublist_cons_self _ _))
          (fun next inRest => erasedKept next (List.mem_cons_of_mem _ inRest)) member aligned
          fits apart (fun entry inRest => behind entry (List.mem_cons_of_mem _ inRest)) guarded
      · next chosen =>
          simp only [not_or, Bool.not_eq_true', Bool.not_eq_false, Nat.not_le] at chosen
          obtain ⟨rfl, reaches, begins⟩ := chosen
          have small : sector < 0xA0C00000 :=
            (programmable _ List.mem_cons_self).sector_bounds.2
          obtain ⟨more, last_eq, rest_eq, -, others⟩ := keptRun_spec region.stop sector rest small
            fun entry inRest => (programmable entry (List.mem_cons_of_mem _ inRest)).sector_bounds.2
          have inEntries := entry_of_run others
          have programmableRun : ∀ index, index ≤ more → Programmable session.chipid
              session.swapActive (sector + flashSector * index) :=
            fun index inRun => programmable _ (inEntries index inRun)
          have smallLast := (programmableRun more (Nat.le_refl _)).sector_bounds.2
          have next_eq : u32 (sector + flashSector) = sector + flashSector := by
            apply u32_of_lt
            simp only [flashSector]
            omega
          have top_eq : u32 (sector + flashSector * more + flashSector) =
              sector + flashSector * (more + 1) := by
            rw [u32_of_lt]
            · ring
            · simp only [flashSector] at *
              omega
          rw [next_eq] at reaches
          extract_lets last low top high
          have low_eq : low = max sector region.address := ite_gt_eq_max _ _
          have high_eq : high = min (sector + flashSector * (more + 1)) region.stop := by
            rw [← top_eq, ← last_eq]
            exact ite_lt_eq_min _ _
          have stop_eq := stop_eq_of_lt fits begins
          have window : Window session erased region low high :=
            window_of_run programmableRun (fun index inRun => erasedKept _ (inEntries index inRun))
              aligned stop_eq low_eq high_eq reaches
          clear_value low high
          have sector_le : sector + flashSector ≤ sector + flashSector * (more + 1) :=
            Nat.add_le_add_left (Nat.le_mul_of_pos_right _ (Nat.succ_pos _)) _
          have first : sector < sector + flashSector * (more + 1) :=
            Nat.lt_of_lt_of_le (Nat.lt_add_of_pos_right (by decide)) sector_le
          have ordered := window_ordered low_eq high_eq (Nat.lt_of_lt_of_le reaches sector_le)
            (stop_eq ▸ Nat.le_add_right _ _) first begins
          have size := length_window window.start ordered window.inside window.word
          have behindLow : cursor ≤ low := low_eq ▸ behind _ List.mem_cons_self
          refine (holds_tricoreFlashProgram window member apart _ size
            (guarded.advance behindLow)).bind fun result log₁ permitted₁ programmed => ?_
          cases result with
          | error fault => exact ⟨permitted₁, fun impossible => nomatch impossible⟩
          | ok _ =>
              have later : ((keptRun region.stop sector rest).2).Sublist ((sector, true) :: rest) := by
                rw [rest_eq]
                exact (List.drop_sublist _ _).cons _
              refine holds_programKept (accepted.sublist (later.map _))
                (fun next inLater => erasedKept next (later.subset inLater)) member aligned fits
                apart ?_ (programmed rfl)
              intro next inLater
              have alignedNext := (programmable next (later.subset inLater)).aligned
              have alignedFirst := (programmable _ List.mem_cons_self).aligned
              have after := last_lt_of_mem_drop accepted.ascending others (rest_eq ▸ inLater)
              have high_le : high ≤ sector + flashSector * (more + 1) :=
                high_eq ▸ Nat.min_le_left _ _
              exact Nat.le_trans (ceilPage_le_next alignedFirst alignedNext after high_le)
                (Nat.le_max_left _ _)
  termination_by entries.length
  decreasing_by
    · exact Nat.lt_succ_of_le (length_keptRun region.stop sector rest)
    · exact Nat.lt_succ_self _

/-- The loads of all regions. -/
theorem holds_programRegions
    {kept : List (Word × Bool)}
    (placed : WellPlaced regions)
    (accepted : Accepted session regions (kept.map Prod.fst))
    (erasedKept : ∀ sector, (sector, true) ∈ kept → ∀ address,
      InSector session sector address → erased address)
    (done rest : List FlashRegion)
    (regions_eq : done ++ rest = regions)
    (guarded : Guarded session regions erased
      (AsCommands session fun address => ∃ other ∈ done, InPages other address) log) :
    (programRegions session kept rest).Holds logging (AllPermitted session regions)
      (fun _ _ => True) log := by
  induction rest generalizing done log with
  | nil => exact ⟨guarded.logged, trivial⟩
  | cons region rest inductionHypothesis =>
      have member : region ∈ regions := regions_eq ▸ List.mem_append_right _ List.mem_cons_self
      have disjoint := placed.disjoint
      rw [← regions_eq, List.pairwise_append] at disjoint
      have apart := fun other isDone => disjoint.2.2 other isDone region List.mem_cons_self
      have guardedHere : Guarded session regions erased
          (AsCommands session (Programmed done region region.address)) log :=
        guarded.mono (fun _ => id) fun _ ⟨address, uncached, before, same⟩ =>
          ⟨address, uncached, Or.inl before, same⟩
      refine (holds_programKept accepted erasedKept member (placed.aligned region member)
        (placed.fits region member) apart (fun _ _ => Nat.le_max_right _ _) guardedHere).bind
          fun result log₁ permitted₁ programmed => ?_
      cases result with
      | error fault => exact ⟨permitted₁, trivial⟩
      | ok _ =>
          obtain ⟨cursor, guarded₁⟩ := programmed rfl
          refine inductionHypothesis (done ++ [region]) ?_ (guarded₁.mono
            (fun _ => id) ?_)
          · rw [List.append_assoc]
            exact regions_eq
          · rintro _ ⟨address, uncached, ⟨other, isDone, inOther⟩ | ⟨inRegion, -⟩, same⟩
            · exact ⟨address, uncached, ⟨other, List.mem_append_left _ isDone, inOther⟩, same⟩
            · exact ⟨address, uncached, ⟨region, by simp, inRegion⟩, same⟩

end Flash
end TriCoreDap
