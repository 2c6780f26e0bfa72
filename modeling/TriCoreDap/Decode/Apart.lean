import TriCoreDap.Library.Lists
import TriCoreDap.Decode.Interleaving

/-!
# When the DTUs are decoded apart

The rows of each DTU are those of its messages alone exactly when no address
waits while a message of the other DTU sets or takes one.
-/

namespace TriCoreDap
namespace Decode

/-- Whether an address waits for its data, in the sequence of one DTU. -/
def DtuMessage.opens (m : DtuMessage) (opened : Bool) : Bool :=
  match m.part with
  | .single => opened
  | .address => true
  | .data => false

/-- The messages of one DTU: each is whole, and each address is followed by its
data. -/
def WellFormed : (addrOk dataOk opened : Bool) → List DtuMessage → Prop
  | _, _, opened, [] => opened = false
  | addrOk, dataOk, opened, m :: rest =>
      m.Fits addrOk dataOk ∧ (m.part = .address → opened = false) ∧
        (m.part = .data → opened = true) ∧
          WellFormed (addrOk || m.hasAddr) (dataOk || m.hasData) (m.opens opened) rest

/-- The DTU whose address waits. -/
def DtuMessage.leaves (m : DtuMessage) (waiting : Option Nat) : Option Nat :=
  match m.part with
  | .single => waiting
  | .address => some m.core
  | .data => none

/-- No address is sent while another waits, and the next data is that of the DTU
whose address waits. -/
def Apart : (waiting : Option Nat) → List DtuMessage → Prop
  | _, [] => True
  | waiting, m :: rest =>
      (m.part = .address → waiting = none) ∧ (m.part = .data → waiting = some m.core) ∧
        Apart (m.leaves waiting) rest

instance decidableWellFormed :
    (addrOk dataOk opened : Bool) → (ms : List DtuMessage) →
      Decidable (WellFormed addrOk dataOk opened ms)
  | _, _, opened, [] => inferInstanceAs (Decidable (opened = false))
  | addrOk, dataOk, opened, m :: rest =>
      have := decidableWellFormed (addrOk || m.hasAddr) (dataOk || m.hasData) (m.opens opened) rest
      inferInstanceAs (Decidable (_ ∧ _ ∧ _ ∧ _))

instance decidableApart :
    (waiting : Option Nat) → (ms : List DtuMessage) → Decidable (Apart waiting ms)
  | _, [] => inferInstanceAs (Decidable True)
  | waiting, m :: rest =>
      have := decidableApart (m.leaves waiting) rest
      inferInstanceAs (Decidable (_ ∧ _ ∧ _))

/-- A row without its time. -/
def Row.untimed (row : Row) : Row := { row with cycles := 0 }

/-- The rows of a core, without their times. -/
def rowsOf (core : Nat) (rows : List Row) : List Row :=
  (rows.filter (·.core = coreName core)).map Row.untimed

/-- The scan after messages. -/
def Scan.through (tickMode : Bool) (s : Scan) (ms : List DtuMessage) : Scan :=
  ms.foldl (fun s m => m.apply tickMode s) s

/-- The core is that of a DTU. -/
def IsDtu (core : Nat) : Prop := core = coreDtu0 ∨ core = coreDtu1

variable {tickMode : Bool} {s alone : Scan} {m : DtuMessage} {ms : List DtuMessage} {core : Nat}
  {waiting : Option Nat} {addrOk dataOk opened : Bool}

theorem coreName_ne (first : IsDtu core) (second : IsDtu other) (ne : other ≠ core) :
    coreName other ≠ coreName core := by
  rcases first with rfl | rfl <;> rcases second with rfl | rfl
  · exact absurd rfl ne
  · decide
  · decide
  · exact absurd rfl ne

theorem rowsOf_append (core : Nat) (first second : List Row) :
    rowsOf core (first ++ second) = rowsOf core first ++ rowsOf core second := by
  simp [rowsOf]

theorem rowsOf_other (ne : row.core ≠ coreName core) (rows : List Row) :
    rowsOf core (rows ++ [row]) = rowsOf core rows := by
  rw [rowsOf_append]
  simp [rowsOf, ne]

/-! ## Apart, each DTU gives its own rows -/

/-- What a scan has in common with that of the messages of one core alone. -/
structure Scan.Agrees (tickMode : Bool) (core : Nat) (waiting : Option Nat) (s alone : Scan) :
    Prop where
  dtu : s.bases.dtu core = alone.bases.dtu core
  now : s.clock.now tickMode = alone.clock.now tickMode
  rows : rowsOf core s.out = rowsOf core alone.out
  pending : waiting = some core → s.pending = alone.pending

/-- A message of the core itself. -/
theorem Scan.Agrees.own
    (agrees : s.Agrees tickMode m.core waiting alone)
    (isDtu : IsDtu m.core)
    (fits : m.Fits (s.bases.dtu m.core).addrOk (s.bases.dtu m.core).dataOk)
    (taken : m.part = .data → waiting = some m.core) :
    (m.apply tickMode s).Agrees tickMode m.core (m.leaves waiting) (m.apply tickMode alone) := by
  obtain ⟨dtu', -, -, does⟩ := m.does tickMode _ (s.clock.now tickMode) isDtu fits
  cases part : m.part with
  | single =>
      rw [part] at does
      cases does with
      | single row core addr applied =>
          rw [applied s rfl rfl, applied alone agrees.dtu.symm agrees.now.symm]
          constructor
          · simp [Scan.append, Scan.engine, Scan.setDtu]
          · exact agrees.now
          · simp only [Scan.append, rowsOf_append]
            exact congrArg (· ++ rowsOf m.core [row]) agrees.rows
          · rw [DtuMessage.leaves, part]
            exact agrees.pending
  | address =>
      rw [part] at does
      cases does with
      | address addr master applied =>
          rw [applied s rfl rfl, applied alone agrees.dtu.symm agrees.now.symm]
          constructor
          · simp [Scan.engine, Scan.setDtu]
          · exact agrees.now
          · exact agrees.rows
          · exact fun _ => rfl
  | data =>
      have pending := agrees.pending (taken part)
      rw [part] at does
      cases does with
      | data row core addr applied =>
          rw [applied s rfl rfl, applied alone agrees.dtu.symm agrees.now.symm, pending]
          constructor
          · simp [Scan.append, Scan.engine, Scan.setDtu]
          · exact agrees.now
          · simp only [Scan.append, rowsOf_append]
            exact congrArg (· ++ rowsOf m.core [row _]) agrees.rows
          · rw [DtuMessage.leaves, part]
            intro impossible
            cases impossible

/-- A message of the other core. -/
theorem Scan.Agrees.other
    (agrees : s.Agrees tickMode core waiting alone)
    (isDtu : IsDtu m.core)
    (dtu : IsDtu core)
    (ne : m.core ≠ core)
    (fits : m.Fits (s.bases.dtu m.core).addrOk (s.bases.dtu m.core).dataOk) :
    (m.apply tickMode s).Agrees tickMode core (m.leaves waiting) alone := by
  have names := coreName_ne dtu isDtu ne
  obtain ⟨dtu', -, -, does⟩ := m.does tickMode _ (s.clock.now tickMode) isDtu fits
  have engine : (s.engine m.core dtu').bases.dtu core = alone.bases.dtu core := by
    rw [← agrees.dtu]
    exact Function.update_of_ne (Ne.symm ne) _ _
  cases part : m.part with
  | single =>
      rw [part] at does
      cases does with
      | single row named addr applied =>
          rw [applied s rfl rfl]
          constructor
          · exact engine
          · exact agrees.now
          · rw [Scan.append, rowsOf_other (by rwa [named])]
            exact agrees.rows
          · rw [DtuMessage.leaves, part]
            exact agrees.pending
  | address =>
      rw [part] at does
      cases does with
      | address addr master applied =>
          rw [applied s rfl rfl]
          constructor
          · exact engine
          · exact agrees.now
          · exact agrees.rows
          · rw [DtuMessage.leaves, part]
            intro same
            exact absurd (Option.some.inj same) ne
  | data =>
      rw [part] at does
      cases does with
      | data row named addr applied =>
          rw [applied s rfl rfl]
          constructor
          · exact engine
          · exact agrees.now
          · rw [Scan.append, rowsOf_other (by rwa [named])]
            exact agrees.rows
          · rw [DtuMessage.leaves, part]
            intro impossible
            cases impossible

/-- The messages left to scan are whole, and of each DTU well formed. -/
structure Ready (s : Scan) (opened : Nat → Bool) (ms : List DtuMessage) : Prop where
  dtus : ∀ m ∈ ms, IsDtu m.core
  wellFormed : ∀ core, IsDtu core →
    WellFormed (s.bases.dtu core).addrOk (s.bases.dtu core).dataOk (opened core)
      (ms.filter (·.core = core))

/-- The engines after a message. -/
theorem DtuMessage.apply_dtu
    (tickMode : Bool)
    (isDtu : IsDtu m.core)
    (fits : m.Fits (s.bases.dtu m.core).addrOk (s.bases.dtu m.core).dataOk) :
    ∃ dtu', dtu'.addrOk = ((s.bases.dtu m.core).addrOk || m.hasAddr) ∧
      dtu'.dataOk = ((s.bases.dtu m.core).dataOk || m.hasData) ∧
        (m.apply tickMode s).bases.dtu = Function.update s.bases.dtu m.core dtu' := by
  obtain ⟨dtu', addrOk, dataOk, does⟩ := m.does tickMode _ (s.clock.now tickMode) isDtu fits
  refine ⟨dtu', addrOk, dataOk, ?_⟩
  generalize m.part = part at does
  cases does with
  | single row named addr applied => rw [applied s rfl rfl]; rfl
  | address addr master applied => rw [applied s rfl rfl]; rfl
  | data row named addr applied => rw [applied s rfl rfl]; rfl

theorem Ready.head (ready : Ready s opens (m :: ms)) :
    IsDtu m.core ∧ m.Fits (s.bases.dtu m.core).addrOk (s.bases.dtu m.core).dataOk ∧
      (m.part = .address → opens m.core = false) ∧ (m.part = .data → opens m.core = true) := by
  have isDtu := ready.dtus m List.mem_cons_self
  have wellFormed := ready.wellFormed m.core isDtu
  rw [List.filter_cons_of_pos (by simp)] at wellFormed
  exact ⟨isDtu, wellFormed.1, wellFormed.2.1, wellFormed.2.2.1⟩

theorem Ready.step (ready : Ready s opens (m :: ms)) (tickMode : Bool) :
    Ready (m.apply tickMode s) (Function.update opens m.core (m.opens (opens m.core))) ms := by
  obtain ⟨isDtu, fits, -, -⟩ := ready.head
  obtain ⟨dtu', addrOk, dataOk, engines⟩ := DtuMessage.apply_dtu tickMode isDtu fits
  refine ⟨fun m member => ready.dtus m (List.mem_cons_of_mem _ member), ?_⟩
  intro core dtu
  have wellFormed := ready.wellFormed core dtu
  rw [engines]
  by_cases same : m.core = core
  · subst same
    rw [List.filter_cons_of_pos (by simp)] at wellFormed
    rw [Function.update_self, Function.update_self, addrOk, dataOk]
    exact wellFormed.2.2.2
  · rw [List.filter_cons_of_neg (by simpa using same)] at wellFormed
    rw [Function.update_of_ne (Ne.symm same), Function.update_of_ne (Ne.symm same)]
    exact wellFormed

/-- Apart, the messages give each core the rows of its own. -/
theorem Scan.Agrees.through
    (agrees : s.Agrees tickMode core waiting alone)
    (dtu : IsDtu core)
    (ready : Ready s opens ms)
    (apart : Apart waiting ms) :
    rowsOf core (s.through tickMode ms).out =
      rowsOf core (alone.through tickMode (ms.filter (·.core = core))).out := by
  induction ms generalizing s alone opens waiting with
  | nil => exact agrees.rows
  | cons m rest inductionHypothesis =>
      obtain ⟨isDtu, fits, -, -⟩ := ready.head
      obtain ⟨-, taken, apart⟩ := apart
      by_cases same : m.core = core
      · subst same
        rw [List.filter_cons_of_pos (by simp)]
        exact inductionHypothesis (agrees.own isDtu fits taken) (ready.step tickMode) apart
      · rw [List.filter_cons_of_neg (by simpa using same)]
        exact inductionHypothesis (agrees.other isDtu dtu same fits)
          (ready.step tickMode) apart

/-! ## Not apart, a row is left without its address -/

/-- No row is without its address. -/
def Addressed (rows : List Row) : Prop := ∀ row ∈ rows, 0 ≤ row.addr

theorem Scan.through_out (tickMode : Bool) (s : Scan) (ready : Ready s opens ms) :
    ∃ rows, (s.through tickMode ms).out = s.out ++ rows ∧
      ∀ row ∈ rows, ∃ core, IsDtu core ∧ row.core = coreName core := by
  induction ms generalizing s opens with
  | nil => exact ⟨[], (List.append_nil _).symm, by simp⟩
  | cons m rest inductionHypothesis =>
      obtain ⟨isDtu, fits, -, -⟩ := ready.head
      obtain ⟨rows, out, named⟩ := inductionHypothesis _ (ready.step tickMode)
      obtain ⟨dtu', -, -, does⟩ := m.does tickMode _ (s.clock.now tickMode) isDtu fits
      have step : ∃ rows, (m.apply tickMode s).out = s.out ++ rows ∧
          ∀ row ∈ rows, row.core = coreName m.core := by
        generalize m.part = part at does
        cases does with
        | single row core addr applied =>
            rw [applied s rfl rfl]
            exact ⟨[row], rfl, by simpa using core⟩
        | address addr master applied =>
            rw [applied s rfl rfl]
            exact ⟨[], (List.append_nil _).symm, by simp⟩
        | data row core addr applied =>
            rw [applied s rfl rfl]
            exact ⟨[row _], rfl, by simpa using core _⟩
      obtain ⟨first, out', named'⟩ := step
      refine ⟨first ++ rows, ?_, ?_⟩
      · rw [← List.append_assoc, ← out']
        exact out
      · intro row member
        rcases List.mem_append.mp member with member | member
        · exact ⟨m.core, isDtu, named' row member⟩
        · exact named row member

/-- A data message for which no address waits leaves a row without address. -/
theorem Addressed.pending
    (ready : Ready s opens (m :: ms))
    (addressed : Addressed (s.through tickMode (m :: ms)).out)
    (data : m.part = .data) : s.pending.isSome = true := by
  obtain ⟨isDtu, fits, -, -⟩ := ready.head
  obtain ⟨rows, out, -⟩ := Scan.through_out tickMode _ (ready.step tickMode)
  obtain ⟨dtu', -, -, does⟩ := m.does tickMode _ (s.clock.now tickMode) isDtu fits
  rw [data] at does
  cases does with
  | data row core addr applied =>
      have member : row (s.pending.getD (-1, -1)) ∈ (s.through tickMode (m :: ms)).out := by
        have whole : (s.through tickMode (m :: ms)).out = (m.apply tickMode s).out ++ rows := out
        rw [whole, applied s rfl rfl]
        simp [Scan.append]
      have bound := addressed _ member
      rw [addr] at bound
      cases waiting : s.pending with
      | none =>
          rw [waiting] at bound
          exact absurd bound (by decide)
      | some waits => rfl

/-- How many DTUs have an address that waits. -/
def openCount (opens : Nat → Bool) : Nat := (opens coreDtu0).toNat + (opens coreDtu1).toNat

theorem openCount_update (isDtu : IsDtu core) (opens : Nat → Bool) (opened : Bool) :
    openCount (Function.update opens core opened) + (opens core).toNat =
      openCount opens + opened.toNat := by
  unfold openCount
  rcases isDtu with rfl | rfl
  · rw [Function.update_self, Function.update_of_ne (by decide)]
    omega
  · rw [Function.update_self, Function.update_of_ne (by decide)]
    omega

/-- Whether an address waits in the scan, after a message. -/
theorem DtuMessage.apply_pending
    (tickMode : Bool)
    (isDtu : IsDtu m.core)
    (fits : m.Fits (s.bases.dtu m.core).addrOk (s.bases.dtu m.core).dataOk) :
    (m.apply tickMode s).pending.isSome = m.opens s.pending.isSome := by
  obtain ⟨dtu', -, -, does⟩ := m.does tickMode _ (s.clock.now tickMode) isDtu fits
  unfold DtuMessage.opens
  generalize m.part = part at does ⊢
  cases does with
  | single row named addr applied => rw [applied s rfl rfl]; rfl
  | address addr master applied => rw [applied s rfl rfl]; rfl
  | data row named addr applied => rw [applied s rfl rfl]; rfl

/-- If every row has its address, then no more addresses wait than the scan has
room for. -/
theorem Addressed.openCount_le
    (ready : Ready s opens ms)
    (addressed : Addressed (s.through tickMode ms).out) :
    openCount opens ≤ s.pending.isSome.toNat := by
  induction ms generalizing s opens with
  | nil =>
      have closed (core : Nat) (isDtu : IsDtu core) : opens core = false :=
        ready.wellFormed core isDtu
      rw [openCount, closed _ (Or.inl rfl), closed _ (Or.inr rfl)]
      exact Nat.zero_le _
  | cons m rest inductionHypothesis =>
      obtain ⟨isDtu, fits, free, taken⟩ := ready.head
      have later := inductionHypothesis (ready.step tickMode) addressed
      have count := openCount_update isDtu opens (m.opens (opens m.core))
      rw [DtuMessage.apply_pending tickMode isDtu fits] at later
      cases part : m.part with
      | single =>
          simp only [DtuMessage.opens, part] at later count
          omega
      | address =>
          simp only [DtuMessage.opens, part, Bool.toNat_true, free part,
            Bool.toNat_false] at later count
          omega
      | data =>
          rw [Addressed.pending ready addressed part]
          simp only [DtuMessage.opens, part, Bool.toNat_true, taken part,
            Bool.toNat_false] at later count ⊢
          omega

/-- If every row has its address, the DTUs are apart. -/
theorem Addressed.apart
    (ready : Ready s opens ms)
    (addressed : Addressed (s.through tickMode ms).out)
    (open_iff : ∀ core, IsDtu core ∧ opens core = true ↔ waiting = some core) :
    Apart waiting ms := by
  induction ms generalizing s opens waiting with
  | nil => exact True.intro
  | cons m rest inductionHypothesis =>
      obtain ⟨isDtu, fits, free, taken⟩ := ready.head
      have next := ready.step tickMode
      have bound := Addressed.openCount_le next addressed
      rw [DtuMessage.apply_pending tickMode isDtu fits] at bound
      have noneOpen (address : m.part = .address) : waiting = none := by
        have count := openCount_update isDtu opens true
        simp only [DtuMessage.opens, address, Bool.toNat_true] at bound
        rw [free address, Bool.toNat_true, Bool.toNat_false] at count
        unfold openCount at bound count
        cases known : waiting with
        | none => rfl
        | some core =>
            obtain ⟨dtu, opened⟩ := (open_iff core).mpr known
            rcases dtu with rfl | rfl
            · rw [opened, Bool.toNat_true] at count
              omega
            · rw [opened, Bool.toNat_true] at count
              omega
      have ownOpen (data : m.part = .data) : waiting = some m.core :=
        (open_iff m.core).mp ⟨isDtu, taken data⟩
      refine ⟨noneOpen, ownOpen, ?_⟩
      apply inductionHypothesis next addressed
      intro core
      cases part : m.part with
      | single =>
          simp only [DtuMessage.opens, DtuMessage.leaves, part, Function.update_eq_self]
          exact open_iff core
      | address =>
          simp only [DtuMessage.opens, DtuMessage.leaves, part, Option.some.injEq]
          by_cases same : core = m.core
          · subst same
            simp [isDtu]
          · have closed := (open_iff core).not.mpr (by simp [noneOpen part])
            rw [Function.update_of_ne same]
            simp [closed, Ne.symm same]
      | data =>
          simp only [DtuMessage.opens, DtuMessage.leaves, part]
          by_cases same : core = m.core
          · subst same
            simp
          · have closed := (open_iff core).not.mpr (by simp [ownOpen part, Ne.symm same])
            rw [Function.update_of_ne same]
            simp [closed]

/-- The messages of one DTU alone give rows with addresses. -/
theorem Addressed.of_alone
    (opened : Bool)
    (own : ∀ m ∈ ms, m.core = core)
    (isDtu : IsDtu core)
    (wellFormed : WellFormed (s.bases.dtu core).addrOk (s.bases.dtu core).dataOk opened ms)
    (waits : opened = true → ∃ (addr : Nat) (master : Int), s.pending = some ((addr : Int), master))
    (addressed : Addressed s.out) : Addressed (s.through tickMode ms).out := by
  induction ms generalizing s opened with
  | nil => exact addressed
  | cons m rest inductionHypothesis =>
      obtain rfl := own m List.mem_cons_self
      obtain ⟨fits, free, taken, wellFormed⟩ := wellFormed
      obtain ⟨dtu', addrOk, dataOk, does⟩ := m.does tickMode _ (s.clock.now tickMode) isDtu fits
      obtain ⟨dtu'', addrOk', dataOk', engines⟩ :=
        DtuMessage.apply_dtu tickMode isDtu fits
      have appended {row : Row} (bound : 0 ≤ row.addr) : Addressed (s.out ++ [row]) := by
        intro other member
        rcases List.mem_append.mp member with member | member
        · exact addressed other member
        · rwa [List.mem_singleton.mp member]
      have step : s.through tickMode (m :: rest) = (m.apply tickMode s).through tickMode rest := rfl
      rw [step]
      apply inductionHypothesis (m.opens opened) (fun m member => own m (List.mem_cons_of_mem _ member))
      · rw [engines, Function.update_self, addrOk', dataOk']
        exact wellFormed
      · intro opened'
        cases part : m.part with
        | single =>
            simp only [DtuMessage.opens, part] at opened'
            rw [part] at does
            cases does with
            | single row named addr applied =>
                rw [applied s rfl rfl]
                exact waits opened'
        | address =>
            rw [part] at does
            cases does with
            | address addr master applied =>
                rw [applied s rfl rfl]
                exact ⟨addr, master, rfl⟩
        | data =>
            simp [DtuMessage.opens, part] at opened'
      · cases part : m.part with
        | single =>
            rw [part] at does
            cases does with
            | single row named addr applied =>
                rw [applied s rfl rfl]
                exact appended addr
        | address =>
            rw [part] at does
            cases does with
            | address addr master applied =>
                rw [applied s rfl rfl]
                exact addressed
        | data =>
            obtain ⟨addr, master, pending⟩ := waits (taken part)
            rw [part] at does
            cases does with
            | data row named address applied =>
                rw [applied s rfl rfl]
                apply appended
                rw [address, pending]
                exact Int.natCast_nonneg addr

/-! ## Paragraphs -/

theorem DtuMessage.apply_kept
    (tickMode : Bool)
    (isDtu : IsDtu m.core)
    (fits : m.Fits (s.bases.dtu m.core).addrOk (s.bases.dtu m.core).dataOk)
    (kept : ¬s.Dropped) : ¬(m.apply tickMode s).Dropped := by
  obtain ⟨dtu', -, -, does⟩ := m.does tickMode _ (s.clock.now tickMode) isDtu fits
  generalize m.part = part at does
  cases does with
  | single row named addr applied => rw [applied s rfl rfl]; exact kept
  | address addr master applied => rw [applied s rfl rfl]; exact kept
  | data row named addr applied => rw [applied s rfl rfl]; exact kept

theorem Ready.kept (ready : Ready s opens ms) (tickMode : Bool) (kept : ¬s.Dropped) :
    ¬(s.through tickMode ms).Dropped := by
  induction ms generalizing s opens with
  | nil => exact kept
  | cons m rest inductionHypothesis =>
      obtain ⟨isDtu, fits, -, -⟩ := ready.head
      exact inductionHypothesis (ready.step tickMode) (DtuMessage.apply_kept tickMode isDtu fits kept)

/-- A paragraph of messages of the DTUs. -/
def Carrying (par : List Byte) (ms : List DtuMessage) : Prop :=
  ∃ closing, Holds par (ms.map DtuMessage.frame) closing

variable {settings : Settings} {d : Decoder settings} {par : List Byte} {gap final : Bool}

/-- The bases that the messages of a paragraph are decoded with. -/
def Decoder.basesAt (d : Decoder settings) (gap : Bool) : Bases :=
  if gap then .unknown else d.bases

theorem framesItems_stamps (pos : Nat) (dtus : ∀ m ∈ ms, IsDtu m.core) :
    ∀ item ∈ framesItems pos (ms.map DtuMessage.frame), item.absoluteTsr = none := by
  induction ms generalizing pos with
  | nil => exact fun _ member => absurd member List.not_mem_nil
  | cons m rest inductionHypothesis =>
      rw [List.forall_mem_cons] at dtus
      intro item member
      rcases List.mem_append.mp member with member | member
      · have isMessage : item = .msg pos m.core m.tt m.data m.dbits := List.mem_singleton.mp member
        have notTsu : m.core ≠ coreTsu := by
          rcases dtus.1 with same | same <;> rw [same] <;> decide
        simp [isMessage, RawMessage.absoluteTsr, notTsu]
      · exact inductionHypothesis _ dtus.2 item member

/-- Without a TSR, no lap is seen. -/
theorem Carrying.gapBefore
    (carrying : Carrying par ms)
    (dtus : ∀ m ∈ ms, IsDtu m.core)
    (d : Decoder settings)
    (gap : Bool) : d.gapBefore par gap = gap := by
  obtain ⟨closing, holds⟩ := carrying
  obtain ⟨bit, parsed⟩ := holds.parsed
  have none : lappedLoop (fromBytes par) (8 * par.length) (8 * par.length / 4) 0 0 = .none := by
    have looked := lappedLoop_eq (fromBytes par) (8 * par.length) (8 * par.length / 4) 0 0
      (Nat.zero_le 16)
    rw [looked]
    apply firstStamp_eq_none
    intro item member
    have member : item ∈ parseParagraph par := List.mem_of_mem_take member
    rw [parsed] at member
    rcases List.mem_append.mp member with member | member
    · exact framesItems_stamps 0 dtus item member
    · rw [List.mem_singleton.mp member]
      rfl
  have notLapped : d.lapped (fromBytes par) (8 * par.length) = false := by
    unfold Decoder.lapped
    rw [none]
    cases d.clock.tsr <;> simp
  simp [Decoder.gapBefore, Decoder.enter, notLapped]

theorem Carrying.entered
    (carrying : Carrying par ms)
    (dtus : ∀ m ∈ ms, IsDtu m.core)
    (d : Decoder settings)
    (gap : Bool) :
    (d.entered par gap).clock = (if gap then d.clock.reset else d.clock) ∧
      (d.entered par gap).bases = d.basesAt gap := by
  have before := carrying.gapBefore dtus d gap
  cases gap with
  | true => exact Decoder.entered_gap before
  | false => exact Decoder.entered_continuing before

/-- The rows of a paragraph of messages of the DTUs. -/
theorem Carrying.rows
    (carrying : Carrying par ms)
    (d : Decoder settings)
    (gap final : Bool)
    (ready : Ready (.start (if gap then d.clock.reset else d.clock) (d.basesAt gap)) opens ms) :
    (d.rows par gap final).1 = gapRows gap ++
      ((Scan.start (if gap then d.clock.reset else d.clock) (d.basesAt gap)).through
        settings.tickMode ms).out := by
  obtain ⟨clock, bases⟩ := carrying.entered ready.dtus d gap
  have before := carrying.gapBefore ready.dtus d gap
  obtain ⟨closing, holds⟩ := carrying
  have scan := holds.scan d gap final
  rw [clock, bases, List.foldl_map] at scan
  have kept : ¬(d.scanOf par gap final).Dropped := by
    rw [scan]
    exact ready.kept settings.tickMode (by simp [Scan.start, Scan.Dropped, Scan.Flawed])
  rw [Decoder.rows_eq, if_neg kept, before, scan]
  rfl

theorem rowsOf_gapRows (isDtu : IsDtu core) (gap : Bool) (rows : List Row) :
    rowsOf core (gapRows gap ++ rows) = rowsOf core rows := by
  have named : gapRow.core ≠ coreName core := by
    rcases isDtu with rfl | rfl <;> decide
  cases gap with
  | false => rfl
  | true =>
      rw [rowsOf_append]
      simp [gapRows, rowsOf, named]

theorem Addressed.of_rowsOf
    {rows : List Row}
    (named : ∀ row ∈ rows, ∃ core, IsDtu core ∧ row.core = coreName core)
    (same : ∀ core, IsDtu core → ∃ others, Addressed others ∧ rowsOf core rows = rowsOf core others) :
    Addressed rows := by
  intro row member
  obtain ⟨core, isDtu, name⟩ := named row member
  obtain ⟨others, addressed, same⟩ := same core isDtu
  have own : row.untimed ∈ rowsOf core rows :=
    List.mem_map_of_mem (List.mem_filter.mpr ⟨member, by simpa using name⟩)
  rw [same] at own
  obtain ⟨other, member, untimed⟩ := List.mem_map.mp own
  have bound := addressed other (List.mem_of_mem_filter member)
  have addr : other.untimed.addr = row.untimed.addr := congrArg Row.addr untimed
  rw [Row.untimed, Row.untimed] at addr
  rwa [← addr]

/-- The messages of one core are ready alone. -/
theorem Ready.filter
    (ready : Ready s (fun _ => false) ms)
    (core : Nat) : Ready s (fun _ => false) (ms.filter (·.core = core)) := by
  refine ⟨fun m member => ready.dtus m (List.mem_of_mem_filter member), ?_⟩
  intro other isDtu
  by_cases same : other = core
  · subst same
    rw [List.filter_filter]
    simpa using ready.wellFormed other isDtu
  · have none : (ms.filter (·.core = core)).filter (·.core = other) = [] := by
      rw [List.filter_filter, List.filter_eq_nil_iff]
      intro m member
      simp only [Bool.and_eq_true, decide_eq_true_eq, not_and]
      rintro rfl
      exact fun own => same own
    rw [none]
    rfl

/-- The rows of a core, in a paragraph of both and in one of its own. -/
theorem rowsOf_alone_iff
    (d : Decoder settings)
    (gap final : Bool)
    {par alonePar : List Byte}
    (isDtu : IsDtu core)
    (ready : Ready (.start (if gap then d.clock.reset else d.clock) (d.basesAt gap))
      (fun _ => false) ms)
    (carrying : Carrying par ms)
    (alone : Carrying alonePar (ms.filter (·.core = core))) :
    rowsOf core (d.rows par gap final).1 = rowsOf core (d.rows alonePar gap final).1 ↔
      rowsOf core ((Scan.start (if gap then d.clock.reset else d.clock) (d.basesAt gap)).through
          settings.tickMode ms).out =
        rowsOf core ((Scan.start (if gap then d.clock.reset else d.clock) (d.basesAt gap)).through
          settings.tickMode (ms.filter (·.core = core))).out := by
  rw [carrying.rows d gap final ready, alone.rows d gap final (ready.filter core),
    rowsOf_gapRows isDtu, rowsOf_gapRows isDtu]

/-- Messages of the two DTUs that are each well formed, in any merge: from any
state, each core has the rows of its own messages alone exactly when the two are
apart. -/
theorem dtus_decode_alone_iff
    (d : Decoder settings)
    (gap final : Bool)
    {first second merged : List DtuMessage}
    (merge : Merge first second merged)
    (firstDtu : ∀ m ∈ first, m.core = coreDtu0)
    (secondDtu : ∀ m ∈ second, m.core = coreDtu1)
    (firstFormed : WellFormed ((d.basesAt gap).dtu coreDtu0).addrOk
      ((d.basesAt gap).dtu coreDtu0).dataOk false first)
    (secondFormed : WellFormed ((d.basesAt gap).dtu coreDtu1).addrOk
      ((d.basesAt gap).dtu coreDtu1).dataOk false second)
    {par firstPar secondPar : List Byte}
    (carrying : Carrying par merged)
    (firstAlone : Carrying firstPar first)
    (secondAlone : Carrying secondPar second) :
    (rowsOf coreDtu0 (d.rows par gap final).1 = rowsOf coreDtu0 (d.rows firstPar gap final).1 ∧
      rowsOf coreDtu1 (d.rows par gap final).1 = rowsOf coreDtu1 (d.rows secondPar gap final).1) ↔
        Apart none merged := by
  have ne : coreDtu1 ≠ coreDtu0 := by decide
  have firstOf : merged.filter (·.core = coreDtu0) = first :=
    merge.filter (·.core = coreDtu0) firstDtu fun m member own =>
      ne ((secondDtu m member).symm.trans own)
  have secondOf : merged.filter (·.core = coreDtu1) = second :=
    merge.swap.filter (·.core = coreDtu1) secondDtu fun m member own =>
      ne (own.symm.trans (firstDtu m member))
  let start := Scan.start (if gap then d.clock.reset else d.clock) (d.basesAt gap)
  have ready : Ready start (fun _ => false) merged := by
    constructor
    · intro m member
      exact (merge.mem member).imp (firstDtu m) (secondDtu m)
    · rintro core (rfl | rfl)
      · rw [firstOf]
        exact firstFormed
      · rw [secondOf]
        exact secondFormed
  rw [← firstOf] at firstAlone
  rw [← secondOf] at secondAlone
  rw [rowsOf_alone_iff d gap final (Or.inl rfl) ready carrying firstAlone,
    rowsOf_alone_iff d gap final (Or.inr rfl) ready carrying secondAlone]
  constructor
  · intro same
    apply Addressed.apart ready
    · obtain ⟨rows, out, named⟩ := Scan.through_out settings.tickMode start ready
      apply Addressed.of_rowsOf
      · rw [out]
        exact named
      · have alone (core : Nat) (isDtu : IsDtu core) :
            Addressed (start.through settings.tickMode (merged.filter (·.core = core))).out := by
          apply Addressed.of_alone false
          · intro m member
            simpa using List.of_mem_filter member
          · exact isDtu
          · exact ready.wellFormed core isDtu
          · simp
          · exact fun _ member => absurd member List.not_mem_nil
        rintro core (rfl | rfl)
        · exact ⟨_, alone _ (Or.inl rfl), same.1⟩
        · exact ⟨_, alone _ (Or.inr rfl), same.2⟩
    · simp
  · intro apart
    have agrees (core : Nat) : start.Agrees settings.tickMode core none start :=
      ⟨rfl, rfl, rfl, fun _ => rfl⟩
    exact ⟨(agrees coreDtu0).through (Or.inl rfl) ready apart,
      (agrees coreDtu1).through (Or.inr rfl) ready apart⟩

/-- A word written in two messages. -/
def splitWrite (core addr value : Nat) : List DtuMessage :=
  [⟨.absize 60, core, 2, packBelow [(2, 0)] addr⟩, ⟨.symlength 7, core, 0, packBelow [(2, 2)] value⟩]

/-- A paragraph of messages. -/
def carrier (ms : List DtuMessage) : List Byte :=
  toBytes 64 (packBits (framesFields (ms.map DtuMessage.frame) ++
    ((Framing.symlength 4).head ++ [(5, coreSkip)])))

/-- One write after the other. -/
theorem dtus_decode_alone_iff_sequence :
    let first := splitWrite coreDtu0 0xD0000000 5
    let second := splitWrite coreDtu1 0x70000000 7
    let d := Decoder.new wholeCycles
    (rowsOf coreDtu0 (d.rows (carrier (first ++ second)) false true).1 =
        rowsOf coreDtu0 (d.rows (carrier first) false true).1 ∧
      rowsOf coreDtu1 (d.rows (carrier (first ++ second)) false true).1 =
        rowsOf coreDtu1 (d.rows (carrier second) false true).1) ↔ Apart none (first ++ second) := by
  intro first second d
  have merge : Merge first second (first ++ second) := .left _ (.left _ (.right _ (.right _ .nil)))
  apply dtus_decode_alone_iff d false true merge
  · decide
  · decide
  · decide
  · decide
  · exact ⟨_, .written (by decide) (by decide) (by decide) (by decide)⟩
  · exact ⟨_, .written (by decide) (by decide) (by decide) (by decide)⟩
  · exact ⟨_, .written (by decide) (by decide) (by decide) (by decide)⟩

/-- Both addresses before both values: the second address goes to the first
value, which is of the other core. -/
theorem dtus_decode_crossed :
    let first := splitWrite coreDtu0 0xD0000000 5
    let second := splitWrite coreDtu1 0x70000000 7
    let merged := [first[0], second[0], first[1], second[1]]
    let d := Decoder.new wholeCycles
    Merge first second merged ∧
      WellFormed false false false first ∧ WellFormed false false false second ∧
        Carrying (carrier merged) merged ∧ Carrying (carrier first) first ∧
          Carrying (carrier second) second ∧
            ¬(rowsOf coreDtu0 (d.rows (carrier merged) false true).1 =
                rowsOf coreDtu0 (d.rows (carrier first) false true).1 ∧
              rowsOf coreDtu1 (d.rows (carrier merged) false true).1 =
                rowsOf coreDtu1 (d.rows (carrier second) false true).1) := by
  intro first second merged d
  refine ⟨?_, by decide, by decide, ?_, ?_, ?_, ?_⟩
  · exact .left _ (.right _ (.left _ (.right _ .nil)))
  · exact ⟨_, .written (by decide) (by decide) (by decide) (by decide)⟩
  · exact ⟨_, .written (by decide) (by decide) (by decide) (by decide)⟩
  · exact ⟨_, .written (by decide) (by decide) (by decide) (by decide)⟩
  · decide +kernel

end Decode
end TriCoreDap
