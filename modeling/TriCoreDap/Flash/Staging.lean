import TriCoreDap.Flash.Apply

/-!
# Collecting a load

GDB's erase requests and the sectors that it writes are collected, one entry for each
physical sector, and nothing is done to the flash before the load is done.  What an entry
holds is what the requests ask for: the last data written, or an erase.
-/

namespace TriCoreDap
namespace Flash

open Probe

def loadMaxSectors : Nat := 768

/-- `load_sector_t`; without data the sector is to be erased only. -/
structure LoadSector where
  address : Nat
  data : Option (List Byte)
  deriving DecidableEq, Repr

/-- What the allocator answers while a request is handled: for the table of sectors, and for
the data of the sector at an offset of the request. -/
structure Memory where
  table : Bool
  room : Nat → Bool

/-- The sector of an address, physical. -/
def loadAddress (address : Nat) : Nat := alignDown (toPhysical address) flashSector

/-- `load_sector`: the list with an entry for the sector. -/
def loadSector (memory : Memory) (address : Nat) (load : List LoadSector) :
    Option (List LoadSector) :=
  if load.any fun sector => sector.address = loadAddress address then some load
  else if load = [] ∧ !memory.table then none
  else if load.length = loadMaxSectors then none
  else some (load ++ [⟨loadAddress address, none⟩])

/-- The loop of `pflash_erase`, at `address`. -/
def eraseFrom (memory : Memory) : (fuel address stop : Nat) → List LoadSector →
    Option (List LoadSector)
  | 0, _, _, load => some load
  | fuel + 1, address, stop, load =>
      if address < stop then
        match loadSector memory address load with
        | none => none
        | some load => eraseFrom memory fuel (u32 (address + flashSector)) stop load
      else some load

/-- `pflash_erase`; `none` where it gives the load up. -/
def pflashErase (memory : Memory) (address length : Nat) (load : List LoadSector) :
    Option (List LoadSector) :=
  eraseFrom memory (2 ^ 32 / flashSector) (u32 address) (u32 (address + length)) load

/-- The bytes copied over an entry's. -/
def LoadSector.write (chunk : List Byte) (sector : LoadSector) : LoadSector :=
  let data := sector.data.getD (List.replicate flashSector flashErased)
  { sector with data := some (chunk ++ data.drop chunk.length) }

/-- A chunk put into the entry of its sector, which gets memory when it has none. -/
def writeSector
    (room : Bool)
    (address : Nat)
    (chunk : List Byte) : List LoadSector → Option (List LoadSector)
  | [] => none
  | sector :: rest =>
      if sector.address = address then
        if sector.data = none ∧ !room then none else some (sector.write chunk :: rest)
      else (writeSector room address chunk rest).map (sector :: ·)

/-- The loop of `pflash_write`, at `offset` with the data from there. -/
def writeFrom (memory : Memory) (address offset : Nat) (data : List Byte)
    (load : List LoadSector) : Option (List LoadSector) :=
  if data = [] then some load
  else
    match loadSector memory (u32 (address + offset)) load with
    | none => none
    | some load =>
        match writeSector (memory.room offset) (loadAddress (u32 (address + offset)))
            (data.take flashSector) load with
        | none => none
        | some load =>
            writeFrom memory address (offset + flashSector) (data.drop flashSector) load
  termination_by data.length
  decreasing_by
    have nonempty : 0 < data.length := List.length_pos_iff.mpr ‹¬data = []›
    rw [List.length_drop, flashSector]
    omega

/-- `pflash_write`; `none` where it gives the load up. -/
def pflashWrite (memory : Memory) (address : Nat) (data : List Byte) (load : List LoadSector) :
    Option (List LoadSector) :=
  writeFrom memory address 0 data load

/-- A flash packet of a load. -/
inductive Request
  | erase (address length : Nat)
  | write (address : Nat) (data : List Byte)
  deriving DecidableEq, Repr

def Request.run (memory : Memory) : Request → List LoadSector → Option (List LoadSector)
  | .erase address length => pflashErase memory address length
  | .write address data => pflashWrite memory address data

/-- The load collected from some requests, while none of them fails. -/
def collect : List (Memory × Request) → List LoadSector → Option (List LoadSector)
  | [], load => some load
  | (memory, request) :: rest, load => (request.run memory load).bind (collect rest)

/-! ## What the requests ask for -/

/-- What is to be done to a sector. -/
inductive Stage
  | untouched
  | erased
  | written (data : List Byte)
  deriving DecidableEq, Repr

def Request.address : Request → Nat
  | .erase address _ => address
  | .write address _ => address

def Request.length : Request → Nat
  | .erase _ length => length
  | .write _ data => data.length

/-- The requests that GDB's memory map lets through: whole sectors of the program flash, by
its cached or its uncached addresses. -/
structure Request.Whole (request : Request) : Prop where
  aligned : request.address % flashSector = 0
  length : request.length % flashSector = 0
  window : pflashCached ≤ request.address ∧
      request.address + request.length ≤ pflashCached + pflashWindow ∨
    pflashBase ≤ request.address ∧ request.address + request.length ≤ pflashBase + pflashWindow

/-- The request covers the sector. -/
def Request.Covers (request : Request) (sector : Nat) : Prop :=
  sector % flashSector = 0 ∧ toPhysical request.address ≤ sector ∧
    sector < toPhysical request.address + request.length

instance (request : Request) (sector : Nat) : Decidable (request.Covers sector) :=
  inferInstanceAs (Decidable (_ ∧ _))

/-- What a request makes of a sector's stage: an erase leaves data that was written. -/
def Request.stage (request : Request) (sector : Nat) (stage : Stage) : Stage :=
  if request.Covers sector then
    match request with
    | .erase _ _ => if stage = .untouched then .erased else stage
    | .write address data =>
        .written ((data.drop (sector - toPhysical address)).take flashSector)
  else stage

/-- What some requests ask for. -/
def asked (requests : List Request) (sector : Nat) : Stage :=
  requests.foldl (fun stage request => request.stage sector stage) .untouched

def LoadSector.stage (sector : LoadSector) : Stage :=
  match sector.data with
  | none => .erased
  | some data => .written data

/-- What the collected load does to a sector. -/
def staged (load : List LoadSector) (sector : Nat) : Stage :=
  match load.find? fun entry => entry.address = sector with
  | none => .untouched
  | some entry => entry.stage

variable {memory : Memory} {load load' : List LoadSector} {address sector : Nat}
  {chunk : List Byte}

/-! ## Entries -/

/-- The address is one of program flash, uncached. -/
def InWindow (address : Nat) : Prop :=
  pflashBase ≤ address ∧ address < pflashBase + pflashWindow

/-- One entry a sector, each with a whole sector's data if it has any. -/
structure Collected (load : List LoadSector) : Prop where
  distinct : (load.map LoadSector.address).Nodup
  aligned : ∀ entry ∈ load, entry.address % flashSector = 0
  window : ∀ entry ∈ load, InWindow entry.address
  sized : ∀ entry ∈ load, ∀ data, entry.data = some data → data.length = flashSector

theorem collected_nil : Collected [] where
  distinct := List.nodup_nil
  aligned _ none := absurd none List.not_mem_nil
  window _ none := absurd none List.not_mem_nil
  sized _ none := absurd none List.not_mem_nil

theorem loadAddress_aligned (address : Nat) : loadAddress address % flashSector = 0 := by
  simp only [loadAddress, alignDown, flashSector]
  omega

theorem mem_of_any (found : load.any (fun sector => sector.address = address) = true) :
    ∃ entry ∈ load, entry.address = address := by
  obtain ⟨entry, member, same⟩ := List.any_eq_true.mp found
  exact ⟨entry, member, of_decide_eq_true same⟩

/-- What `load_sector` does: nothing where the sector has an entry, else it adds one. -/
theorem loadSector_cases (found : loadSector memory address load = some load') :
    (load' = load ∧ ∃ entry ∈ load, entry.address = loadAddress address) ∨
      (load' = load ++ [⟨loadAddress address, none⟩] ∧
        ∀ entry ∈ load, entry.address ≠ loadAddress address) := by
  unfold loadSector at found
  split at found
  · next isThere => exact Or.inl ⟨(Option.some.inj found).symm, mem_of_any isThere⟩
  · next notThere =>
      split at found
      · cases found
      · split at found
        · cases found
        · refine Or.inr ⟨(Option.some.inj found).symm, fun entry member same => notThere ?_⟩
          exact List.any_eq_true.mpr ⟨entry, member, decide_eq_true same⟩

theorem Collected.loadSector
    (collected : Collected load)
    (window : InWindow (loadAddress address))
    (found : loadSector memory address load = some load') : Collected load' := by
  rcases loadSector_cases found with ⟨rfl, -⟩ | ⟨rfl, absent⟩
  · exact collected
  · have new : ∀ {Holds : LoadSector → Prop}, (∀ entry ∈ load, Holds entry) →
        Holds ⟨loadAddress address, none⟩ →
          ∀ entry ∈ load ++ [⟨loadAddress address, none⟩], Holds entry := by
      intro Holds old last entry member
      rcases List.mem_append.mp member with member | member
      · exact old entry member
      · exact List.mem_singleton.mp member ▸ last
    refine ⟨?_, new collected.aligned (loadAddress_aligned address),
      new collected.window window, new collected.sized fun _ impossible => by cases impossible⟩
    rw [List.map_append, List.nodup_append]
    refine ⟨collected.distinct, List.pairwise_singleton _ _, ?_⟩
    rintro left inLoad right isNew rfl
    obtain ⟨entry, member, same⟩ := List.mem_map.mp inLoad
    exact absent entry member (same.trans (List.mem_singleton.mp isNew))

theorem staged_loadSector
    (found : loadSector memory address load = some load')
    (sector : Nat) :
    staged load' sector =
      if sector = loadAddress address ∧ staged load sector = .untouched then .erased
      else staged load sector := by
  rcases loadSector_cases found with ⟨rfl, entry, member, same⟩ | ⟨rfl, absent⟩
  · rw [if_neg]
    rintro ⟨rfl, untouched⟩
    unfold staged at untouched
    split at untouched
    · next notFound =>
        have differs := List.find?_eq_none.mp notFound entry member
        simp [same] at differs
    · next found =>
        rw [LoadSector.stage] at untouched
        split at untouched <;> cases untouched
  · unfold staged
    rw [List.find?_append]
    by_cases here : sector = loadAddress address
    · subst here
      have notFound : (load.find? fun entry => decide (entry.address = loadAddress address)) =
          none := by
        rw [List.find?_eq_none]
        intro entry member
        simp [absent entry member]
      rw [notFound]
      simp [LoadSector.stage]
    · have notNew : ([⟨loadAddress address, none⟩] : List LoadSector).find?
          (fun entry => decide (entry.address = sector)) = none := by
        simp [Ne.symm here]
      rw [notNew, Option.or_none, if_neg fun both => here both.1]

/-! ## Writing an entry -/

/-- A write finds the entry of its sector. -/
theorem writeSector_cases
    {room : Bool}
    (wrote : writeSector room address chunk load = some load') :
    ∃ before entry after, load = before ++ entry :: after ∧ entry.address = address ∧
      (∀ other ∈ before, other.address ≠ address) ∧
        load' = before ++ entry.write chunk :: after := by
  induction load generalizing load' with
  | nil => cases wrote
  | cons entry rest inductionHypothesis =>
      rw [writeSector] at wrote
      split at wrote
      · next here =>
          split at wrote
          · cases wrote
          · exact ⟨[], entry, rest, rfl, here, fun _ none => absurd none List.not_mem_nil,
              (Option.some.inj wrote).symm⟩
      · next elsewhere =>
          obtain ⟨rest', wrote', rfl⟩ := Option.map_eq_some_iff.mp wrote
          obtain ⟨before, found, after, rfl, same, apart, rfl⟩ := inductionHypothesis wrote'
          exact ⟨entry :: before, found, after, rfl, same,
            List.forall_mem_cons.mpr ⟨elsewhere, apart⟩, rfl⟩

/-- A whole chunk replaces the data. -/
theorem write_of_whole
    {entry : LoadSector}
    (whole : chunk.length = flashSector)
    (sized : ∀ data, entry.data = some data → data.length = flashSector) :
    entry.write chunk = ⟨entry.address, some chunk⟩ := by
  have old : (entry.data.getD (List.replicate flashSector flashErased)).length = flashSector := by
    cases data_eq : entry.data with
    | none => exact List.length_replicate
    | some data => exact sized data data_eq
  rw [LoadSector.write, List.drop_of_length_le (by rw [old, whole]), List.append_nil]

theorem staged_eq
    {entry : LoadSector}
    {before after : List LoadSector}
    (apart : ∀ other ∈ before, other.address ≠ entry.address)
    (sector : Nat) :
    staged (before ++ entry :: after) sector =
      if sector = entry.address then entry.stage else staged (before ++ after) sector := by
  unfold staged
  by_cases here : sector = entry.address
  · subst here
    have notBefore : (before.find? fun other => decide (other.address = entry.address)) = none := by
      rw [List.find?_eq_none]
      intro other member
      simp [apart other member]
    rw [List.find?_append, notBefore]
    simp
  · have skipped : ((entry :: after).find? fun other => decide (other.address = sector)) =
        after.find? fun other => decide (other.address = sector) :=
      List.find?_cons_of_neg (by simp [Ne.symm here])
    rw [if_neg here, List.find?_append, List.find?_append, skipped]

/-- A write of a whole sector leaves its chunk there, and the other sectors as they were. -/
theorem Collected.writeSector
    {room : Bool}
    (collected : Collected load)
    (whole : chunk.length = flashSector)
    (wrote : writeSector room address chunk load = some load') :
    Collected load' ∧ ∀ sector, staged load' sector =
      if sector = address then .written chunk else staged load sector := by
  obtain ⟨before, entry, after, rfl, rfl, apart, rfl⟩ := writeSector_cases wrote
  have member : entry ∈ before ++ entry :: after := by simp
  rw [write_of_whole whole (collected.sized entry member)]
  have kept : ∀ {Holds : LoadSector → Prop}, (∀ other ∈ before ++ entry :: after, Holds other) →
      Holds ⟨entry.address, some chunk⟩ →
        ∀ other ∈ before ++ ⟨entry.address, some chunk⟩ :: after, Holds other := by
    intro Holds old written other member
    rcases List.mem_append.mp member with first | later
    · exact old other (List.mem_append_left _ first)
    · rcases List.mem_cons.mp later with rfl | later
      · exact written
      · exact old other (List.mem_append_right _ (List.mem_cons_of_mem _ later))
  constructor
  · refine ⟨?_, kept collected.aligned (collected.aligned entry member),
      kept collected.window (collected.window entry member), kept collected.sized ?_⟩
    · have distinct := collected.distinct
      rwa [List.map_append, List.map_cons] at distinct ⊢
    · intro data same
      exact Option.some.inj same ▸ whole
  · intro sector
    have apart' : ∀ other ∈ before,
        other.address ≠ (LoadSector.mk entry.address (some chunk)).address := apart
    have written : staged (before ++ ⟨entry.address, some chunk⟩ :: after) sector =
        if sector = entry.address then .written chunk else staged (before ++ after) sector :=
      staged_eq apart' sector
    rw [written, staged_eq apart]
    split
    · rfl
    · rfl

/-! ## Requests -/

variable {request : Request}

/-- The sectors of a whole request, by their physical addresses. -/
theorem Request.Whole.place
    (whole : request.Whole)
    (inside : offset < request.length)
    (aligned : offset % flashSector = 0) :
    request.address + offset < 2 ^ 32 ∧
      loadAddress (request.address + offset) = toPhysical request.address + offset ∧
        InWindow (toPhysical request.address + offset) := by
  have alignedStart := whole.aligned
  have window := whole.window
  have physical : ∀ address, toPhysical address =
      if 0x80000000 ≤ address ∧ address < 0x81000000 then address - 0x80000000 + 0xA0000000
      else address := fun _ => rfl
  rw [loadAddress, alignDown, physical, physical, InWindow]
  simp only [pflashCached, pflashWindow, pflashBase, flashSector] at *
  split
  · split
    · omega
    · omega
  · split
    · omega
    · omega

theorem Request.Whole.end_lt
    (whole : request.Whole)
    (reach : offset ≤ request.length) : request.address + offset < 2 ^ 32 := by
  have window := whole.window
  simp only [pflashCached, pflashWindow, pflashBase] at window
  omega

/-- An erase request that is carried out from an offset on. -/
theorem collected_eraseFrom
    {address length fuel : Nat}
    (whole : (Request.erase address length).Whole)
    (offset : Nat)
    (aligned : offset % flashSector = 0)
    (reach : offset ≤ length)
    (enough : length ≤ offset + flashSector * fuel)
    (collected : Collected load)
    (ran : eraseFrom memory fuel (address + offset) (address + length) load = some load') :
    Collected load' ∧ ∀ sector, staged load' sector =
      if (sector % flashSector = 0 ∧ toPhysical address + offset ≤ sector ∧
          sector < toPhysical address + length) ∧ staged load sector = .untouched
      then .erased else staged load sector := by
  induction fuel generalizing offset load with
  | zero =>
      rw [eraseFrom] at ran
      obtain rfl := Option.some.inj ran
      refine ⟨collected, fun sector => (if_neg ?_).symm⟩
      rintro ⟨⟨-, above, below⟩, -⟩
      omega
  | succ fuel inductionHypothesis =>
      rw [eraseFrom] at ran
      split at ran
      · next before =>
          split at ran
          · cases ran
          · next middle found =>
              obtain ⟨word, place, window⟩ := whole.place (show offset < length by omega) aligned
              have word : address + offset < 2 ^ 32 := word
              have place : loadAddress (address + offset) = toPhysical address + offset := place
              have alignedLength : length % flashSector = 0 := whole.length
              have alignedStart : address % flashSector = 0 := whole.aligned
              have reach' : offset + flashSector ≤ length := by
                simp only [flashSector] at *
                omega
              have next_eq : u32 (address + offset + flashSector) =
                  address + (offset + flashSector) := by
                have word' : address + (offset + flashSector) < 2 ^ 32 := whole.end_lt reach'
                rw [Nat.add_assoc]
                exact u32_of_lt word'
              rw [next_eq] at ran
              have aligned' : (offset + flashSector) % flashSector = 0 :=
                (Nat.add_mod_right _ _).trans aligned
              obtain ⟨collected', staged'⟩ := inductionHypothesis (offset + flashSector) aligned'
                reach' (by rw [Nat.mul_succ] at enough; omega)
                (collected.loadSector (place ▸ window) found) ran
              refine ⟨collected', fun sector => ?_⟩
              have alignedPlace : (toPhysical address + offset) % flashSector = 0 :=
                place ▸ loadAddress_aligned _
              rw [staged', staged_loadSector found, place]
              by_cases here : sector = toPhysical address + offset
              · have notLater : ¬toPhysical address + (offset + flashSector) ≤ sector := by
                  rw [here, ← Nat.add_assoc]
                  exact Nat.not_le_of_lt (Nat.lt_add_of_pos_right (by decide))
                rw [if_neg fun both => notLater both.1.2.1]
                refine if_congr ⟨fun both => ⟨⟨here ▸ alignedPlace, by omega, by omega⟩, both.2⟩,
                  fun both => ⟨here, both.2⟩⟩ rfl rfl
              · have elsewhere : (if sector = toPhysical address + offset ∧
                    staged load sector = .untouched then Stage.erased else staged load sector) =
                      staged load sector := if_neg fun both => here both.1
                rw [elsewhere]
                refine if_congr (and_congr_left fun _ => ?_) rfl rfl
                generalize toPhysical address = physical at *
                simp only [flashSector] at *
                omega
      · obtain rfl := Option.some.inj ran
        refine ⟨collected, fun sector => (if_neg ?_).symm⟩
        rintro ⟨⟨-, above, below⟩, -⟩
        omega

/-- A write request that is carried out from an offset on. -/
theorem collected_writeFrom
    {address : Nat}
    {data : List Byte}
    {load : List LoadSector}
    (whole : (Request.write address data).Whole)
    (offset : Nat)
    (aligned : offset % flashSector = 0)
    (reach : offset ≤ data.length)
    (collected : Collected load)
    (ran : writeFrom memory address offset (data.drop offset) load = some load') :
    Collected load' ∧ ∀ sector, staged load' sector =
      if sector % flashSector = 0 ∧ toPhysical address + offset ≤ sector ∧
          sector < toPhysical address + data.length
      then .written ((data.drop (sector - toPhysical address)).take flashSector)
      else staged load sector := by
  rw [writeFrom] at ran
  split at ran
  · next empty =>
      obtain rfl := Option.some.inj ran
      have all : data.length ≤ offset := List.drop_eq_nil_iff.mp empty
      refine ⟨collected, fun sector => (if_neg ?_).symm⟩
      rintro ⟨-, above, below⟩
      omega
  · next nonempty =>
      have before : offset < data.length := by
        rw [List.drop_eq_nil_iff] at nonempty
        omega
      obtain ⟨word, place, window⟩ := whole.place before aligned
      have word : address + offset < 2 ^ 32 := word
      have place : loadAddress (address + offset) = toPhysical address + offset := place
      rw [u32_of_lt word] at ran
      split at ran
      · cases ran
      · next middle found =>
          split at ran
          · cases ran
          · next written wrote =>
              have alignedLength : data.length % flashSector = 0 := whole.length
              have reach' : offset + flashSector ≤ data.length := by
                simp only [flashSector] at *
                omega
              have chunkWhole : ((data.drop offset).take flashSector).length = flashSector := by
                rw [List.length_take, List.length_drop]
                omega
              have aligned' : (offset + flashSector) % flashSector = 0 :=
                (Nat.add_mod_right _ _).trans aligned
              have alignedPlace : (toPhysical address + offset) % flashSector = 0 :=
                place ▸ loadAddress_aligned _
              obtain ⟨collectedWritten, stagedWritten⟩ :=
                (collected.loadSector (place ▸ window) found).writeSector chunkWhole wrote
              rw [List.drop_drop] at ran
              obtain ⟨collected', staged'⟩ := collected_writeFrom whole (offset + flashSector)
                aligned' reach' collectedWritten ran
              refine ⟨collected', fun sector => ?_⟩
              rw [staged', stagedWritten, staged_loadSector found, place]
              by_cases here : sector = toPhysical address + offset
              · have notLater : ¬toPhysical address + (offset + flashSector) ≤ sector := by
                  rw [here, ← Nat.add_assoc]
                  exact Nat.not_le_of_lt (Nat.lt_add_of_pos_right (by decide))
                rw [if_neg fun both => notLater both.2.1, if_pos here,
                  if_pos ⟨here ▸ alignedPlace, by omega, by omega⟩, here,
                  Nat.add_sub_cancel_left]
              · have elsewhere : (if sector = toPhysical address + offset ∧
                    staged load sector = .untouched then Stage.erased else staged load sector) =
                      staged load sector := if_neg fun both => here both.1
                rw [if_neg here, elsewhere]
                refine if_congr ?_ rfl rfl
                generalize toPhysical address = physical at *
                simp only [flashSector] at *
                omega
  termination_by data.length - offset
  decreasing_by
    have positive : 0 < flashSector := by decide
    omega

/-- A request that succeeds does to every sector what it asks for. -/
theorem Request.Whole.staged
    (whole : request.Whole)
    (collected : Collected load)
    (ran : request.run memory load = some load') :
    Collected load' ∧
      ∀ sector, TriCoreDap.Flash.staged load' sector =
        request.stage sector (TriCoreDap.Flash.staged load sector) := by
  cases request with
  | erase address length =>
      have word : address + length < 2 ^ 32 := whole.end_lt (Nat.le_refl _)
      have start_eq : u32 address = address := u32_of_lt (Nat.lt_of_le_of_lt (by omega) word)
      have ran : eraseFrom memory (2 ^ 32 / flashSector) (u32 address) (u32 (address + length))
        load = some load' := ran
      rw [start_eq, u32_of_lt word] at ran
      obtain ⟨collected', staged'⟩ := collected_eraseFrom whole 0 rfl (Nat.zero_le _)
        (by simp only [flashSector]; omega) collected ran
      refine ⟨collected', fun sector => (staged' sector).trans ?_⟩
      rw [Request.stage]
      by_cases covers : (Request.erase address length).Covers sector
      · rw [if_pos covers]
        exact if_congr (and_iff_right covers) rfl rfl
      · rw [if_neg covers, if_neg fun both => covers both.1]
  | write address data =>
      have ran : writeFrom memory address 0 (data.drop 0) load = some load' := ran
      exact collected_writeFrom whole 0 rfl (Nat.zero_le _) collected ran

/-- The collected load holds for every sector what the requests asked for together. -/
theorem staged_collect
    {requests : List (Memory × Request)}
    (whole : ∀ entry ∈ requests, entry.2.Whole)
    (collected : Collected load)
    (ran : collect requests load = some load') :
    Collected load' ∧ ∀ sector, staged load' sector =
      (requests.map Prod.snd).foldl (fun stage request => request.stage sector stage)
        (staged load sector) := by
  induction requests generalizing load with
  | nil =>
      obtain rfl := Option.some.inj ran
      exact ⟨collected, fun _ => rfl⟩
  | cons entry rest inductionHypothesis =>
      obtain ⟨memory, request⟩ := entry
      obtain ⟨middle, ran, later⟩ := Option.bind_eq_some_iff.mp ran
      have first : request.Whole := whole (memory, request) List.mem_cons_self
      obtain ⟨collected', staged'⟩ := first.staged collected ran
      obtain ⟨collected'', staged''⟩ := inductionHypothesis
        (fun entry member => whole entry (List.mem_cons_of_mem _ member)) collected' later
      refine ⟨collected'', fun sector => ?_⟩
      rw [staged'', staged']
      rfl

end Flash
end TriCoreDap
