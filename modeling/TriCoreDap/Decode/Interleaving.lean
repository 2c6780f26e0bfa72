import TriCoreDap.Decode.Frames

/-!
# Two DTUs in one paragraph

The engines of the two DTUs are apart, but the address that waits for its data
message is not: it goes to the next data message of either.
-/

namespace TriCoreDap
namespace Decode

/-- A message of a DTU. -/
structure DtuMessage where
  framing : Framing
  core : Nat
  tt : Nat
  data : Nat
  deriving DecidableEq, Repr

/-- What a message is: a whole access, or the address or the data of one. -/
inductive Part
  | single
  | address
  | data
  deriving DecidableEq, Repr

namespace DtuMessage

variable (m : DtuMessage)

def frame : Frame := .msg m.framing m.core m.tt m.data

def dbits : Nat := m.framing.length - 8

def comp : Bool := decide (m.tt % 2 = 1)

def part : Part :=
  if m.tt ≤ 1 then .data
  else if m.tt ≤ 3 then
    if m.data % 4 = 2 then .data else if m.data % 4 = 0 then .address else .single
  else .single

/-- The message has an address, on its own or with data. -/
def hasAddr : Bool := decide (m.part ≠ .data)

/-- The message has data, on its own or with an address. -/
def hasData : Bool := decide (m.part = .data ∨ 3 < m.tt)

/-- The fields are there, and what is compressed is so against a base that is
known. -/
def Fits (addrOk dataOk : Bool) : Prop :=
  unfitDtu m.tt m.data m.dbits = false ∧
    (m.comp = true → (m.hasAddr = true → addrOk = true) ∧ (m.hasData = true → dataOk = true))

instance (addrOk dataOk : Bool) : Decidable (m.Fits addrOk dataOk) :=
  inferInstanceAs (Decidable (_ ∧ _))

/-- The scan after the message. -/
def apply (tickMode : Bool) (s : Scan) : Scan :=
  decodeMessage tickMode s m.core m.tt m.data m.dbits

end DtuMessage

variable {tickMode : Bool} {s : Scan} {m : DtuMessage} {dtu : Dtu}

/-- The scan in which the engines of a core are new. -/
def Scan.engine (s : Scan) (core : Nat) (dtu : Dtu) : Scan := s.counted.setDtu core dtu

/-- All that a message of a DTU does: it moves the engines of its own core on, and
is a row, or an address that waits, or a row with the address that waits. -/
inductive DtuMessage.Does (tickMode : Bool) (m : DtuMessage) (dtu : Dtu) (now : Int)
    (dtu' : Dtu) : Part → Prop
  | single (row : Row)
      (core : row.core = coreName m.core)
      (addr : 0 ≤ row.addr)
      (applied : ∀ s : Scan, s.bases.dtu m.core = dtu → s.clock.now tickMode = now →
        m.apply tickMode s = (s.engine m.core dtu').append row) :
      Does tickMode m dtu now dtu' .single
  | address (addr : Nat) (master : Int)
      (applied : ∀ s : Scan, s.bases.dtu m.core = dtu → s.clock.now tickMode = now →
        m.apply tickMode s =
          { s.engine m.core dtu' with pending := some ((addr : Int), master) }) :
      Does tickMode m dtu now dtu' .address
  | data (row : Int × Int → Row)
      (core : ∀ waiting, (row waiting).core = coreName m.core)
      (addr : ∀ waiting, (row waiting).addr = waiting.1)
      (applied : ∀ s : Scan, s.bases.dtu m.core = dtu → s.clock.now tickMode = now →
        m.apply tickMode s =
          { s.engine m.core dtu' with pending := none }.append
            (row (s.pending.getD (-1, -1)))) :
      Does tickMode m dtu now dtu' .data

theorem DtuMessage.apply_eq
    (isDtu : m.core = coreDtu0 ∨ m.core = coreDtu1)
    (tickMode : Bool)
    (s : Scan) :
    m.apply tickMode s =
      dtuMessage tickMode s.counted m.core m.comp m.tt m.data m.dbits := by
  rw [DtuMessage.apply, decodeMessage, if_pos isDtu]
  rfl

/-- A data message, as one of the messages of its DTU. -/
theorem DtuMessage.does_data
    (tickMode : Bool)
    (now : Int)
    (kind : Kind)
    (dsize field : Nat)
    (synced : m.comp = true → dtu.dataOk = true)
    (applied : ∀ s : Scan, m.apply tickMode s =
      dataMessage tickMode s.counted m.core m.comp kind dsize field) :
    ∃ dtu', dtu'.addrOk = dtu.addrOk ∧ dtu'.dataOk = true ∧ m.Does tickMode dtu now dtu' .data := by
  let value := dmask dsize (if m.comp then field ^^^ dtu.data else field)
  refine ⟨{ dtu with data := value, dataOk := true }, rfl, rfl, ?_⟩
  apply DtuMessage.Does.data fun waiting =>
    ⟨now, kind, waiting.1, value, dsizeBytes dsize, -1, -1, coreName m.core, waiting.2⟩
  · exact fun _ => rfl
  · exact fun _ => rfl
  · rintro s rfl rfl
    rw [applied, dataMessage]
    exact if_neg (not_refused synced)

/-- An address message. -/
theorem DtuMessage.does_address
    (tickMode : Bool)
    (now : Int)
    (synced : m.comp = true → dtu.addrOk = true)
    (applied : ∀ s : Scan, m.apply tickMode s =
      addressMessage tickMode s.counted m.core m.comp (m.data % 4) m.data) :
    ∃ dtu', dtu'.addrOk = true ∧ dtu'.dataOk = dtu.dataOk ∧
      m.Does tickMode dtu now dtu' (if m.data % 4 = 0 then .address else .single) := by
  let full := if m.comp then (m.data >>> 2) ^^^ dtu.addr else m.data >>> 2
  refine ⟨{ dtu with addr := full, addrOk := true }, rfl, rfl, ?_⟩
  by_cases waits : m.data % 4 = 0
  · rw [if_pos waits]
    apply DtuMessage.Does.address (addressOf full) (masterOf full)
    rintro s rfl rfl
    rw [applied, addressMessage, waits]
    exact if_neg (not_refused synced)
  · rw [if_neg waits]
    apply DtuMessage.Does.single
      ⟨now, if m.data % 4 = 1 then .write else .read, addressOf full, -1, 0, -1, -1,
        coreName m.core, masterOf full⟩
    · rfl
    · exact Int.natCast_nonneg _
    · rintro s rfl rfl
      rw [applied, addressMessage]
      simp only [if_neg waits]
      exact if_neg (not_refused synced)

/-- A whole access. -/
theorem DtuMessage.does_access
    (tickMode : Bool)
    (now : Int)
    (room : ¬m.dbits < 6)
    (syncedAddr : m.comp = true → dtu.addrOk = true)
    (syncedData : m.comp = true → dtu.dataOk = true)
    (applied : ∀ s : Scan, m.apply tickMode s =
      access tickMode s.counted m.core m.comp m.tt m.data m.dbits) :
    ∃ dtu', dtu'.addrOk = true ∧ dtu'.dataOk = true ∧ m.Does tickMode dtu now dtu' .single := by
  let n1 := if len1 (m.data % 16) > m.dbits - 6 then m.dbits - 6 else len1 (m.data % 16)
  let raw := (m.data >>> 6) % 2 ^ n1
  let value := dmask ((m.data >>> 4) % 4) (if m.comp then raw ^^^ dtu.data else raw)
  let full := if m.comp then (m.data >>> (6 + n1)) ^^^ dtu.addr else m.data >>> (6 + n1)
  refine ⟨⟨full, value, true, true⟩, rfl, rfl, ?_⟩
  apply DtuMessage.Does.single
    ⟨now, if m.tt < 6 then .write else .read, addressOf full, value,
      dsizeBytes ((m.data >>> 4) % 4), -1, -1, coreName m.core, masterOf full⟩
  · rfl
  · exact Int.natCast_nonneg _
  · rintro s rfl rfl
    have knownData : ¬(m.comp = true ∧ (!(s.counted.bases.dtu m.core).dataOk) = true) :=
      not_refused syncedData
    have knownAddr : ¬(m.comp = true ∧ (!(s.counted.bases.dtu m.core).addrOk) = true) :=
      not_refused syncedAddr
    simp only [applied, access, if_neg room, if_neg knownData, if_neg knownAddr]
    simp only [Scan.setDtu, Function.update_idem, Scan.engine]
    rfl

/-- Every message does one of these. -/
theorem DtuMessage.does
    (m : DtuMessage)
    (tickMode : Bool)
    (dtu : Dtu)
    (now : Int)
    (isDtu : m.core = coreDtu0 ∨ m.core = coreDtu1)
    (fits : m.Fits dtu.addrOk dtu.dataOk) :
    ∃ dtu', dtu'.addrOk = (dtu.addrOk || m.hasAddr) ∧ dtu'.dataOk = (dtu.dataOk || m.hasData) ∧
      m.Does tickMode dtu now dtu' m.part := by
  obtain ⟨whole, synced⟩ := fits
  have applied := DtuMessage.apply_eq isDtu tickMode
  unfold unfitDtu at whole
  by_cases dtwd : m.tt ≤ 1
  · have part : m.part = .data := if_pos dtwd
    simp only [DtuMessage.hasAddr, DtuMessage.hasData, part] at synced ⊢
    simp only [dtwd, if_true, decide_eq_false_iff_not] at whole
    have does := DtuMessage.does_data tickMode now .write (m.data % 4) (m.data >>> 2)
      (fun comp => (synced comp).2 (by simp))
      (fun s => by rw [applied, dtuMessage, if_pos dtwd, Decode.dtwd, if_neg whole])
    simpa using does
  by_cases dta : m.tt ≤ 3
  · simp only [if_neg dtwd, if_pos dta, decide_eq_false_iff_not, not_or] at whole
    by_cases dtrd : m.data % 4 = 2
    · have part : m.part = .data := by
        rw [DtuMessage.part, if_neg dtwd, if_pos dta, if_pos dtrd]
      simp only [DtuMessage.hasAddr, DtuMessage.hasData, part] at synced ⊢
      have room : ¬m.dbits < 4 := fun short => whole.2 ⟨dtrd, short⟩
      have does := DtuMessage.does_data tickMode now .read ((m.data >>> 2) % 4) (m.data >>> 4)
        (fun comp => (synced comp).2 (by simp))
        (fun s => by
          rw [applied, dtuMessage, if_neg dtwd, if_pos dta, if_neg whole.1, if_pos dtrd,
            Decode.dtrd, if_neg room])
      simpa using does
    · have part : m.part = if m.data % 4 = 0 then .address else .single := by
        rw [DtuMessage.part, if_neg dtwd, if_pos dta, if_neg dtrd]
      have hasAddr : m.hasAddr = true := by
        rw [DtuMessage.hasAddr, part]
        split_ifs <;> rfl
      have hasData : m.hasData = false := by
        rw [DtuMessage.hasData, part]
        split_ifs <;> simp [dta]
      rw [hasAddr, hasData, part, Bool.or_true, Bool.or_false]
      apply DtuMessage.does_address tickMode now (fun comp => (synced comp).1 hasAddr)
      intro s
      rw [applied, dtuMessage, if_neg dtwd, if_pos dta, if_neg whole.1, if_neg dtrd]
  · simp only [if_neg dtwd, if_neg dta, decide_eq_false_iff_not] at whole
    have part : m.part = .single := by rw [DtuMessage.part, if_neg dtwd, if_neg dta]
    have hasAddr : m.hasAddr = true := by simp [DtuMessage.hasAddr, part]
    have hasData : m.hasData = true := by simp [DtuMessage.hasData, show 3 < m.tt by omega]
    rw [hasAddr, hasData, part, Bool.or_true, Bool.or_true]
    apply DtuMessage.does_access tickMode now whole (fun comp => (synced comp).1 hasAddr)
      (fun comp => (synced comp).2 hasData)
    intro s
    rw [applied, dtuMessage, if_neg dtwd, if_neg dta]

end Decode
end TriCoreDap
