import TriCoreDap.Web.Lz4RoundTrip

/-!
# The compressor's accesses

`lz4_fast_compress` over its buffers, every access of which is checked: a load
outside of the source, a store outside of the destination or the table, and a
search that does not come to its end are errors of their own.  It stops with none
of them, and otherwise does what the compressor on lists does.
-/

namespace TriCoreDap
namespace Web
namespace Checked

/-- Why a run stops before its end. -/
inductive Stop
  /-- An access is outside of the buffers. -/
  | outside
  /-- The turns are used up. -/
  | endless
  /-- `return 0`. -/
  | full
  deriving DecidableEq, Repr

/-- The byte at `src + place`. -/
def load (src : List Byte) (place : Int) : Except Stop Byte :=
  if 0 ≤ place then
    match src[place.toNat]? with
    | some byte => .ok byte
    | none => .error .outside
  else .error .outside

def rd32 (src : List Byte) (place : Int) : Except Stop Nat := do
  let b0 ← load src place
  let b1 ← load src (place + 1)
  let b2 ← load src (place + 2)
  let b3 ← load src (place + 3)
  return b0.toNat + b1.toNat <<< 8 + b2.toNat <<< 16 + b3.toNat <<< 24

def loadEntry (table : Nat → Nat) (h : Nat) : Except Stop Nat :=
  if h < 2 ^ lz4FastHashBits then .ok (table h) else .error .outside

def storeEntry (table : Nat → Nat) (h value : Nat) : Except Stop (Nat → Nat) :=
  if h < 2 ^ lz4FastHashBits then .ok (Function.update table h value) else .error .outside

/-- The destination and the place in it. -/
structure Output where
  dst : List Byte
  op : Nat

namespace Output

/-- `*op++ = byte`. -/
def put (out : Output) (byte : Byte) : Except Stop Output :=
  if out.op < out.dst.length then .ok ⟨out.dst.set out.op byte, out.op + 1⟩
  else .error .outside

/-- `*token |= bits`. -/
def orToken (out : Output) (token : Nat) (bits : Byte) : Except Stop Output :=
  if token < out.dst.length then .ok { out with dst := out.dst.modify token (· ||| bits) }
  else .error .outside

/-- A length past 15: 255s, then the rest. -/
def putLen (out : Output) (len : Nat) : Except Stop Output :=
  if 255 ≤ len then do
    let out ← out.put 255
    out.putLen (len - 255)
  else out.put (UInt8.ofNat len)
termination_by len

/-- The token with the literal length, and its bytes past the token. -/
def putLiteralLen (out : Output) (lit : Nat) : Except Stop Output :=
  if lit ≥ 15 then do
    let out ← out.put (UInt8.ofNat (15 <<< 4))
    out.putLen (lit - 15)
  else out.put (UInt8.ofNat (lit <<< 4))

/-- `memcpy`, and `op` past it. -/
def copy (src : List Byte) : (count place : Nat) → Output → Except Stop Output
  | 0, _, out => .ok out
  | count + 1, place, out => do
      let byte ← load src place
      let out ← out.put byte
      copy src count (place + 1) out

end Output

section Matching

variable (src : List Byte)

/-- Whether the candidate is no match; most fail on the first byte. -/
def noMatch (ip ref seq : Nat) : Except Stop Bool :=
  if ref ≥ ip then .ok true
  else do
    let candidate ← load src ref
    let byte ← load src ip
    if candidate ≠ byte then return true
    else
      let word ← rd32 src ref
      return decide (word ≠ seq)

/-- Back over equal bytes: the match and its reference. -/
def back (anchor : Nat) : (ip ref : Nat) → Except Stop (Nat × Nat)
  | ip, ref + 1 =>
      if anchor < ip then do
        let byte ← load src ((ip : Int) - 1)
        let behind ← load src (((ref + 1 : Nat) : Int) - 1)
        if byte = behind then back anchor (ip - 1) ref else return (ip, ref + 1)
      else .ok (ip, ref + 1)
  | ip, 0 => .ok (ip, 0)

/-- Forward over equal bytes, to `matchlimit` at most. -/
def forward (matchlimit mp rp : Nat) : Except Stop Nat :=
  if mp < matchlimit then do
    let byte ← load src mp
    let behind ← load src rp
    if byte = behind then forward matchlimit (mp + 1) (rp + 1) else return mp
  else .ok mp
termination_by matchlimit - mp

end Matching

/-- A sequence with the literals from `anchor` on, or the stop where there may be no
room for it. -/
def putSequence
    (src : List Byte)
    (out : Output)
    (anchor ip ref mp : Nat) : Except Stop Output :=
  let lit := sub32 ip anchor
  let mlen := sub32 (sub32 mp ip) Lz4.minMatch
  if out.op + 1 + lit / 255 + 1 + lit + 2 + mlen / 255 + 1 > out.dst.length then .error .full
  else do
    let token := out.op
    let out ← out.putLiteralLen lit
    let out ← out.copy src lit anchor
    let off := sub32 ip ref % 2 ^ 16
    let out ← out.put (byteOf off 0)
    let out ← out.put (byteOf off 1)
    if mlen ≥ 15 then do
      let out ← out.orToken token 15
      out.putLen (mlen - 15)
    else out.orToken token (UInt8.ofNat mlen)

/-- The variables of the search. -/
structure State where
  ip : Nat
  anchor : Nat
  out : Output
  misses : Nat
  table : Nat → Nat

namespace State

/-- One turn of the search. -/
def turn (src : List Byte) (state : State) : Except Stop State := do
  let matchlimit := src.length - lastLiterals
  let seq ← rd32 src state.ip
  let h := hash4 seq
  let ref ← loadEntry state.table h
  let table ← storeEntry state.table h (state.ip % 2 ^ 16)
  if ← noMatch src state.ip ref seq then
    -- Incompressible stretches are skipped faster and faster.
    return { state with
      ip := state.ip + (1 + state.misses >>> 6)
      misses := u32 (state.misses + 1)
      table := table }
  else
    let (ip, ref) ← back src state.anchor state.ip ref
    let mp ← forward src matchlimit (ip + Lz4.minMatch) (ref + Lz4.minMatch)
    let out ← putSequence src state.out state.anchor ip ref mp
    -- One more entry inside the match, for the next search.
    let table ←
      if 0 < (mp : Int) - 2 then do
        let word ← rd32 src ((mp : Int) - 2)
        storeEntry table (hash4 word) ((mp - 2) % 2 ^ 16)
      else .ok table
    return { ip := mp, anchor := mp, out := out, misses := 0, table := table }

/-- `while (ip < mflimit)`. -/
def run (src : List Byte) : (fuel : Nat) → State → Except Stop State
  | 0, state => if state.ip < src.length - mfLimit then .error .endless else .ok state
  | fuel + 1, state =>
      if state.ip < src.length - mfLimit then do
        let state ← state.turn src
        state.run src fuel
      else .ok state

end State

/-- The destination and how much of it the block takes; `cap` is the destination's
length. -/
def lz4FastCompress (src dst : List Byte) : Except Stop Output :=
  if src.length ≥ 65536 then .error .full
  else do
    let state ←
      if src.length > mfLimit then State.run src src.length ⟨1, 0, ⟨dst, 0⟩, 0, fun _ => 0⟩
      else .ok ⟨0, 0, ⟨dst, 0⟩, 0, fun _ => 0⟩
    let lit := sub32 src.length state.anchor
    if state.out.op + 1 + lit / 255 + 1 + lit > state.out.dst.length then .error .full
    else do
      let out ← state.out.putLiteralLen lit
      out.copy src lit state.anchor

theorem ok_bind (value : α) (next : α → Except Stop β) :
    (Except.ok value >>= next) = next value := rfl

/-! ## Loads -/

section Matching

variable {src : List Byte}

theorem load_eq (inside : place < src.length) :
    load src (place : Int) = .ok (src.getD place 0) := by
  rw [load, if_pos (Int.natCast_nonneg place), Int.toNat_natCast,
    List.getElem?_eq_getElem inside, List.getD_eq_getElem src 0 inside]

theorem rd32_eq (inside : place + 4 ≤ src.length) :
    rd32 src (place : Int) = .ok (le32 src place) := by
  have loads (offset : Nat) (within : offset < 4) :
      load src ((place : Int) + (offset : Int)) = .ok (src.getD (place + offset) 0) := by
    rw [← Int.natCast_add]
    exact load_eq (by omega)
  have b0 := loads 0 (by decide)
  have b1 := loads 1 (by decide)
  have b2 := loads 2 (by decide)
  have b3 := loads 3 (by decide)
  simp only [Nat.cast_zero, add_zero, Nat.cast_one, Nat.cast_ofNat] at b0 b1 b2 b3
  rw [rd32, b0, b1, b2, b3]
  rfl

theorem hash4_lt (value : Nat) : hash4 value < 2 ^ lz4FastHashBits := by
  unfold hash4 u32 lz4FastHashBits
  rw [Nat.shiftRight_eq_div_pow]
  omega

theorem noMatch_eq (inside : ip + 4 ≤ src.length) (ref seq : Nat) :
    noMatch src ip ref seq =
      .ok (decide (ref ≥ ip ∨ src.getD ref 0 ≠ src.getD ip 0 ∨ le32 src ref ≠ seq)) := by
  unfold noMatch
  by_cases before : ref ≥ ip
  · simp [before]
  · rw [if_neg before, load_eq (by omega), load_eq (by omega), rd32_eq (by omega)]
    generalize src.getD ref 0 = candidate
    generalize src.getD ip 0 = byte
    by_cases first : candidate = byte
    · simp [before, first, bind, Except.bind, pure, Except.pure]
    · simp [first, bind, Except.bind, pure, Except.pure]

theorem back_eq (anchor : Nat) (inside : ip ≤ src.length) (before : ref < ip) :
    back src anchor ip ref = .ok (Web.back src anchor ip ref) := by
  induction ref generalizing ip with
  | zero => rw [back, Web.back]
  | succ ref inductionHypothesis =>
      rw [back, Web.back]
      by_cases after : anchor < ip
      · have byte : load src ((ip - 1 : Nat) : Int) = .ok (src.getD (ip - 1) 0) :=
          load_eq (by omega)
        have behind : load src (ref : Int) = .ok (src.getD ref 0) := load_eq (by omega)
        rw [Int.natCast_sub (by omega), Nat.cast_one] at byte
        rw [if_pos after, byte, Nat.cast_add, Nat.cast_one, add_sub_cancel_right, behind]
        by_cases equal : src.getD (ip - 1) 0 = src.getD ref 0
        · rw [if_pos ⟨after, equal⟩, ← inductionHypothesis (by omega) (by omega)]
          exact if_pos equal
        · rw [if_neg fun both => equal both.2]
          exact if_neg equal
      · rw [if_neg after, if_neg fun both => after both.1]

theorem forward_eq (inside : matchlimit ≤ src.length) (before : rp ≤ mp) :
    forward src matchlimit mp rp = .ok (Web.forward src (matchlimit - mp) mp rp) := by
  obtain ⟨room, room_eq⟩ : ∃ room, matchlimit - mp = room := ⟨_, rfl⟩
  rw [room_eq]
  induction room generalizing mp rp with
  | zero => rw [forward, if_neg (by omega), Web.forward]
  | succ room inductionHypothesis =>
      rw [forward, if_pos (by omega), load_eq (by omega), load_eq (by omega), Web.forward]
      by_cases equal : src.getD mp 0 = src.getD rp 0
      · rw [if_pos equal, ← inductionHypothesis (by omega) (by omega)]
        exact if_pos equal
      · rw [if_neg equal]
        exact if_neg equal

end Matching

/-! ## Stores -/

namespace Output

/-- What is written is at the front of a destination of `cap` bytes. -/
structure Holds (out : Output) (cap : Nat) (written : List Byte) : Prop where
  length_eq : out.dst.length = cap
  op_eq : out.op = written.length
  front : ∃ rest, out.dst = written ++ rest

/-- Stores that stay inside and leave `written`. -/
def Puts (result : Except Stop Output) (cap : Nat) (written : List Byte) : Prop :=
  ∃ out, result = .ok out ∧ out.Holds cap written

variable {out : Output} {cap : Nat} {written : List Byte}

theorem Puts.bind
    {result : Except Stop Output}
    {next : Output → Except Stop Output}
    {more : List Byte}
    (puts : Puts result cap written)
    (after : ∀ out, out.Holds cap written → Puts (next out) cap more) :
    Puts (result >>= next) cap more := by
  obtain ⟨out, rfl, holds⟩ := puts
  exact after out holds

theorem Holds.put (holds : out.Holds cap written) (room : written.length < cap) (byte : Byte) :
    Puts (out.put byte) cap (written ++ [byte]) := by
  obtain ⟨rest, front⟩ := holds.front
  have length_eq := holds.length_eq
  rw [front, List.length_append] at length_eq
  obtain ⟨old, rest, rfl⟩ : ∃ old more, rest = old :: more := by
    apply List.exists_cons_of_length_pos
    omega
  refine ⟨⟨out.dst.set out.op byte, out.op + 1⟩, ?_, ?_, ?_, rest, ?_⟩
  · rw [Output.put, if_pos (by rw [holds.op_eq, holds.length_eq]; exact room)]
  · rw [List.length_set, holds.length_eq]
  · rw [List.length_append, holds.op_eq, List.length_singleton]
  · dsimp only
    rw [front, holds.op_eq, List.set_append_right _ _ (Nat.le_refl _), Nat.sub_self,
      List.set_cons_zero, List.append_assoc, List.singleton_append]

theorem Holds.orToken
    (holds : out.Holds cap written)
    (inside : token < written.length)
    (bits : Byte) :
    Puts (out.orToken token bits) cap (written.modify token (· ||| bits)) := by
  obtain ⟨rest, front⟩ := holds.front
  have length_eq := holds.length_eq
  rw [front, List.length_append] at length_eq
  refine ⟨{ out with dst := out.dst.modify token (· ||| bits) }, ?_, ?_, ?_, rest, ?_⟩
  · rw [Output.orToken, if_pos (by rw [holds.length_eq]; omega)]
  · rw [List.length_modify, holds.length_eq]
  · rw [List.length_modify, holds.op_eq]
  · dsimp only
    rw [front, modify_append_left inside]

theorem Holds.putLen
    (holds : out.Holds cap written)
    (len : Nat)
    (room : written.length + len / 255 + 1 ≤ cap) :
    Puts (out.putLen len) cap (written ++ Web.putLen len) := by
  induction len using Web.putLen.induct generalizing out written with
  | case1 len long inductionHypothesis =>
      rw [Output.putLen, if_pos long, Web.putLen, if_pos long]
      refine (holds.put (by omega) 255).bind fun out next => ?_
      have later := inductionHypothesis next (by
        rw [List.length_append, List.length_singleton]
        omega)
      rwa [List.append_assoc, List.singleton_append] at later
  | case2 len short =>
      rw [Output.putLen, if_neg short, Web.putLen, if_neg short]
      exact holds.put (by omega) _

theorem Holds.putLiteralLen
    (holds : out.Holds cap written)
    (room : written.length + 1 + lit / 255 + 1 ≤ cap) :
    Puts (out.putLiteralLen lit) cap (written ++ Web.putLiteralLen lit) := by
  unfold Output.putLiteralLen Web.putLiteralLen
  split
  · refine (holds.put (by omega) _).bind fun out next => ?_
    have later := next.putLen (lit - 15) (by
      rw [List.length_append, List.length_singleton]
      omega)
    rwa [List.append_assoc, List.singleton_append] at later
  · exact holds.put (by omega) _

theorem length_putLiteralLen_le (lit : Nat) :
    (Web.putLiteralLen lit).length ≤ lit / 255 + 2 := by
  have fits := length_lengthBytes_le lit
  rw [putLiteralLen_eq, List.length_cons]
  omega

theorem Holds.copy
    {src : List Byte}
    (holds : out.Holds cap written)
    (count place : Nat)
    (inside : place + count ≤ src.length)
    (room : written.length + count ≤ cap) :
    Puts (out.copy src count place) cap (written ++ (src.drop place).take count) := by
  induction count generalizing out written place with
  | zero =>
      rw [List.take_zero, List.append_nil]
      exact ⟨out, rfl, holds⟩
  | succ count inductionHypothesis =>
      have front : (src.drop place).take (count + 1) =
          src.getD place 0 :: (src.drop (place + 1)).take count := by
        rw [List.drop_eq_getElem_cons (by omega), List.take_succ_cons,
          List.getD_eq_getElem src 0 (by omega)]
      rw [Output.copy, load_eq (by omega), front]
      refine (holds.put (by omega) _).bind fun out next => ?_
      have later := inductionHypothesis next (place + 1) (by omega) (by
        rw [List.length_append, List.length_singleton]
        omega)
      rwa [List.append_assoc, List.singleton_append] at later

end Output

/-! ## The search -/

/-- A checked run does what the plain one does: it leaves what is related to the plain
result, and where there is none it stops with `return 0`. -/
def Agrees (checked : Except Stop σ) (plain : Option τ) (related : σ → τ → Prop) : Prop :=
  match plain with
  | none => checked = .error .full
  | some result => ∃ state, checked = .ok state ∧ related state result

theorem putSequence_agrees
    {src op : List Byte}
    {out : Output}
    {cap anchor ip ref mp : Nat}
    (holds : out.Holds cap op)
    (short : src.length < 65536)
    (after : anchor ≤ ip)
    (before : ref ≤ ip)
    (further : ip + Lz4.minMatch ≤ mp)
    (inside : mp ≤ src.length) :
    Agrees (putSequence src out anchor ip ref mp)
      (Web.putSequence src cap op anchor ip ref mp) (fun out op => out.Holds cap op) := by
  unfold Lz4.minMatch at further
  have lit_eq : sub32 ip anchor = ip - anchor := sub32_of_le after (by omega)
  have match_eq : sub32 (sub32 mp ip) Lz4.minMatch = mp - ip - Lz4.minMatch := by
    rw [sub32_of_le (show ip ≤ mp by omega) (by omega)]
    exact sub32_of_le (by unfold Lz4.minMatch; omega) (by omega)
  have off_eq : sub32 ip ref = ip - ref := sub32_of_le before (by omega)
  unfold putSequence Web.putSequence
  simp only [lit_eq, match_eq, off_eq, holds.op_eq, holds.length_eq]
  split
  · rfl
  · next room =>
    rw [Nat.not_lt] at room
    have token_lt := Output.length_putLiteralLen_le (ip - anchor)
    have token_pos : 0 < (Web.putLiteralLen (ip - anchor)).length := by
      rw [putLiteralLen_eq, List.length_cons]
      exact Nat.succ_pos _
    have length_literals : ((src.drop anchor).take (ip - anchor)).length = ip - anchor := by
      rw [List.length_take, List.length_drop]
      omega
    have offset {next : Output → Except Stop Output} {more : List Byte}
        (last : ∀ out, out.Holds cap
          (op ++ Web.putLiteralLen (ip - anchor) ++ (src.drop anchor).take (ip - anchor) ++
            [byteOf ((ip - ref) % 2 ^ 16) 0, byteOf ((ip - ref) % 2 ^ 16) 1]) →
              Output.Puts (next out) cap more) :
        Output.Puts (do
          let out ← out.putLiteralLen (ip - anchor)
          let out ← out.copy src (ip - anchor) anchor
          let out ← out.put (byteOf ((ip - ref) % 2 ^ 16) 0)
          let out ← out.put (byteOf ((ip - ref) % 2 ^ 16) 1)
          next out) cap more := by
      refine (holds.putLiteralLen (by omega)).bind fun out tokened => ?_
      refine (tokened.copy _ _ (by omega) (by rw [List.length_append]; omega)).bind fun out copied => ?_
      refine (copied.put ?_ _).bind fun out low => (low.put ?_ _).bind fun out high => ?_
      · simp only [List.length_append, length_literals]
        omega
      · simp only [List.length_append, length_literals, List.length_singleton]
        omega
      · rw [List.append_assoc _ [_] [_]] at high
        exact last out high
    have inside (rest : List Byte) : op.length <
        (op ++ Web.putLiteralLen (ip - anchor) ++ (src.drop anchor).take (ip - anchor) ++
          rest).length := by
      simp only [List.length_append]
      omega
    by_cases long : mp - ip - Lz4.minMatch ≥ 15
    · simp only [if_pos long]
      refine offset fun out holds => (holds.orToken (inside _) 15).bind fun out tokened => ?_
      apply tokened.putLen (mp - ip - Lz4.minMatch - 15)
      simp only [List.length_modify, List.length_append, length_literals, List.length_cons,
        List.length_nil]
      omega
    · simp only [if_neg long]
      exact offset fun out holds => holds.orToken (inside _) _

/-- The variables of the two searches. -/
def State.Follows (cap : Nat) (state : State) (search : Search) : Prop :=
  ∃ out, state = ⟨search.ip, search.anchor, out, search.misses, search.table⟩ ∧
    out.Holds cap search.op

/-- A turn stays inside. -/
theorem State.turn_agrees
    {src : List Byte}
    {cap : Nat}
    {state : State}
    {search : Search}
    (follows : state.Follows cap search)
    (short : src.length < 65536)
    (after : search.anchor ≤ search.ip)
    (early : search.ip < src.length - mfLimit) :
    Agrees (state.turn src) (search.turn src cap) (Follows cap) := by
  obtain ⟨out, rfl, holds⟩ := follows
  have inside := early
  unfold mfLimit at inside
  unfold turn Search.turn
  simp only [rd32_eq (show search.ip + 4 ≤ src.length by omega), loadEntry, storeEntry,
    if_pos (hash4_lt _), ok_bind, noMatch_eq (show search.ip + 4 ≤ src.length by omega)]
  by_cases other : search.table (hash4 (le32 src search.ip)) ≥ search.ip ∨
      src.getD (search.table (hash4 (le32 src search.ip))) 0 ≠ src.getD search.ip 0 ∨
        le32 src (search.table (hash4 (le32 src search.ip))) ≠ le32 src search.ip
  · rw [if_pos (decide_eq_true other), if_pos other]
    exact ⟨_, rfl, out, rfl, holds⟩
  · rw [if_neg (by simpa using other), if_neg other]
    rw [not_or, not_or, not_not, not_not, Nat.not_le] at other
    obtain ⟨before, -, equal⟩ := other
    have found := matched early after before equal
    dsimp only at found
    rw [back_eq _ (by omega) before, ok_bind]
    set start := Web.back src search.anchor search.ip
      (search.table (hash4 (le32 src search.ip)))
    have behind : start.2 + Lz4.minMatch ≤ start.1 + Lz4.minMatch := by
      have := found.back_lt
      omega
    have ahead := forward_eq (Nat.sub_le src.length lastLiterals) behind
    set mp := Web.forward src (src.length - lastLiterals - (start.1 + Lz4.minMatch))
      (start.1 + Lz4.minMatch) (start.2 + Lz4.minMatch)
    obtain ⟨later, start_le, back_lt, past, last, -⟩ := found
    unfold lastLiterals at last
    have further : start.1 + Lz4.minMatch ≤ mp := by omega
    have put := putSequence_agrees holds short later (Nat.le_of_lt back_lt) further
      (by omega)
    unfold Lz4.minMatch at past
    have extra : rd32 src ((mp - 2 : Nat) : Int) = .ok (le32 src (mp - 2)) :=
      rd32_eq (by omega)
    rw [Int.natCast_sub (by omega), Nat.cast_ofNat] at extra
    have positive : (0 : Int) < mp - 2 := by omega
    have fits : 0 < mp - 2 := by omega
    rw [ahead, ok_bind]
    cases put_eq : Web.putSequence src cap search.op search.anchor start.1 start.2 mp with
    | none =>
        rw [put_eq] at put
        rw [show putSequence src out search.anchor start.1 start.2 mp = .error .full from put]
        rfl
    | some op =>
        rw [put_eq] at put
        obtain ⟨out, written, holds⟩ := put
        rw [written, ok_bind, if_pos positive, extra, ok_bind, Option.map_some]
        refine ⟨_, rfl, out, ?_, holds⟩
        rw [if_pos fits]

/-- The search stays inside and comes to its end. -/
theorem State.run_agrees
    {src : List Byte}
    {cap fuel : Nat}
    {state : State}
    {search : Search}
    {sequences : List Lz4.Sequence}
    (follows : state.Follows cap search)
    (short : src.length < 65536)
    (kept : search.Kept src cap sequences)
    (enough : src.length ≤ fuel + search.ip) :
    Agrees (state.run src fuel) (search.run src cap fuel) (Follows cap) := by
  have ip_eq : state.ip = search.ip := by
    obtain ⟨out, rfl, -⟩ := follows
    rfl
  induction fuel generalizing state search sequences with
  | zero =>
      rw [run, Search.run, if_neg (by omega)]
      exact ⟨state, rfl, follows⟩
  | succ fuel inductionHypothesis =>
      rw [run, Search.run, ip_eq]
      by_cases early : search.ip < src.length - mfLimit
      · rw [if_pos early, if_pos early]
        have turned := turn_agrees follows short kept.anchor_le early
        cases turn_eq : search.turn src cap with
        | none =>
            rw [turn_eq] at turned
            rw [show state.turn src = .error .full from turned]
            rfl
        | some next =>
            rw [turn_eq] at turned
            obtain ⟨after, turn_ok, nextFollows⟩ := turned
            obtain ⟨⟨sequences, nextKept⟩, forward⟩ :=
              Search.kept_turn short kept early turn_eq
            rw [turn_ok, ok_bind, Option.bind_some]
            refine inductionHypothesis nextFollows nextKept (by omega) ?_
            obtain ⟨out, rfl, -⟩ := nextFollows
            rfl
      · rw [if_neg early, if_neg early]
        exact ⟨state, rfl, follows⟩

theorem anchor_le_length
    {src : List Byte}
    {search : Search}
    {sequences : List Lz4.Sequence}
    (kept : search.Kept src cap sequences) : search.anchor ≤ src.length := by
  rcases kept.lastFive with none | some
  · have produced_eq := kept.produced_eq
    rw [none] at produced_eq
    rw [← produced_eq]
    exact Nat.zero_le _
  · omega

/-- The rest as literals. -/
theorem putLast_agrees
    {src : List Byte}
    {cap anchor : Nat}
    {out : Output}
    {op : List Byte}
    (holds : out.Holds cap op)
    (short : src.length < 65536)
    (inside : anchor ≤ src.length) :
    let lit := sub32 src.length anchor
    let plain := src.length - anchor
    Agrees
      (if out.op + 1 + lit / 255 + 1 + lit > out.dst.length then .error .full
        else do
          let out ← out.putLiteralLen lit
          out.copy src lit anchor)
      (if op.length + 1 + plain / 255 + 1 + plain > cap then none
        else some (op ++ Web.putLiteralLen plain ++ src.drop anchor))
      (fun out block => out.Holds cap block) := by
  intro lit plain
  have lit_eq : lit = plain := sub32_of_le inside (by omega)
  rw [lit_eq, holds.op_eq, holds.length_eq]
  by_cases room : op.length + 1 + plain / 255 + 1 + plain > cap
  · rw [if_pos room, if_pos room]
    rfl
  · rw [if_neg room, if_neg room]
    rw [Nat.not_lt] at room
    have token_le := Output.length_putLiteralLen_le plain
    have whole : (src.drop anchor).take plain = src.drop anchor :=
      List.take_of_length_le (by rw [List.length_drop])
    refine (holds.putLiteralLen (by omega)).bind fun out tokened => ?_
    have inRest : anchor + plain ≤ src.length := by omega
    have copied := tokened.copy plain anchor inRest (by rw [List.length_append]; omega)
    rwa [whole] at copied

/-- The compressor stays inside its buffers, comes to its end, and makes the block
that the compressor on lists does. -/
theorem lz4FastCompress_agrees (src dst : List Byte) :
    Agrees (lz4FastCompress src dst) (Web.lz4FastCompress src dst.length)
      (fun out block => out.Holds dst.length block) := by
  have empty : (⟨dst, 0⟩ : Output).Holds dst.length [] := ⟨rfl, rfl, dst, rfl⟩
  unfold lz4FastCompress Web.lz4FastCompress
  by_cases long : src.length ≥ 65536
  · rw [if_pos long, if_pos long]
    rfl
  rw [if_neg long, if_neg long]
  have short := Nat.not_le.mp long
  by_cases room : src.length > mfLimit
  · have first : Agrees (State.run src src.length ⟨1, 0, ⟨dst, 0⟩, 0, fun _ => 0⟩)
        (Search.first.run src dst.length src.length) (State.Follows dst.length) :=
      State.run_agrees ⟨⟨dst, 0⟩, rfl, empty⟩ short (Search.kept_first src dst.length)
        (Nat.le_add_right _ _)
    simp only [if_pos room]
    cases searched : Search.first.run src dst.length src.length with
    | none =>
        rw [searched] at first
        rw [show State.run src src.length ⟨1, 0, ⟨dst, 0⟩, 0, fun _ => 0⟩ = .error .full from first]
        rfl
    | some search =>
        rw [searched] at first
        obtain ⟨state, ran, out, rfl, holds⟩ := first
        obtain ⟨sequences, kept⟩ :=
          (Search.kept_run short (Search.kept_first src dst.length) searched).1
        rw [show State.run src src.length ⟨1, 0, ⟨dst, 0⟩, 0, fun _ => 0⟩ = _ from ran, ok_bind,
          Option.bind_some]
        exact putLast_agrees holds short (anchor_le_length kept)
  · simp only [if_neg room]
    rw [ok_bind, Option.bind_some]
    exact putLast_agrees empty short (Nat.zero_le _)

/-! ## More room -/

section Room

variable {src : List Byte} {cap more : Nat}

theorem putSequence_mono
    (wider : cap ≤ more)
    (put : Web.putSequence src cap op anchor ip ref mp = some next) :
    Web.putSequence src more op anchor ip ref mp = some next := by
  unfold Web.putSequence at put ⊢
  dsimp only at put ⊢
  split at put
  · cases put
  · rwa [if_neg (by omega)]

theorem exists_putSequence (src op : List Byte) (anchor ip ref mp : Nat) :
    ∃ cap next, Web.putSequence src cap op anchor ip ref mp = some next := by
  unfold Web.putSequence
  dsimp only
  refine ⟨op.length + 1 + (ip - anchor) / 255 + 1 + (ip - anchor) + 2 +
    (mp - ip - Lz4.minMatch) / 255 + 1, ?_⟩
  rw [if_neg (Nat.lt_irrefl _)]
  split <;> exact ⟨_, rfl⟩

theorem turn_mono
    {search next : Search}
    (wider : cap ≤ more)
    (turned : search.turn src cap = some next) : search.turn src more = some next := by
  unfold Search.turn at turned ⊢
  dsimp only at turned ⊢
  split at turned
  · next other => rwa [if_pos other]
  · next found =>
    obtain ⟨op, put, rfl⟩ := Option.map_eq_some_iff.mp turned
    rw [if_neg found, putSequence_mono wider put, Option.map_some]

theorem exists_turn (src : List Byte) (search : Search) :
    ∃ cap next, search.turn src cap = some next := by
  unfold Search.turn
  dsimp only
  split
  · exact ⟨0, _, rfl⟩
  · obtain ⟨cap, op, put⟩ := exists_putSequence src search.op search.anchor
      (Web.back src search.anchor search.ip (search.table (hash4 (le32 src search.ip)))).1
      (Web.back src search.anchor search.ip (search.table (hash4 (le32 src search.ip)))).2 _
    exact ⟨cap, _, Option.map_eq_some_iff.mpr ⟨op, put, rfl⟩⟩

theorem run_mono
    {fuel : Nat}
    {search final : Search}
    (wider : cap ≤ more)
    (ran : search.run src cap fuel = some final) : search.run src more fuel = some final := by
  induction fuel generalizing search with
  | zero => exact ran
  | succ fuel inductionHypothesis =>
      rw [Search.run] at ran ⊢
      split at ran
      · next early =>
        obtain ⟨next, turned, rest⟩ := Option.bind_eq_some_iff.mp ran
        rw [if_pos early, turn_mono wider turned, Option.bind_some]
        exact inductionHypothesis rest
      · next late => rwa [if_neg late]

theorem exists_run (src : List Byte) (fuel : Nat) (search : Search) :
    ∃ cap final, search.run src cap fuel = some final := by
  induction fuel generalizing search with
  | zero => exact ⟨0, search, rfl⟩
  | succ fuel inductionHypothesis =>
      by_cases early : search.ip < src.length - mfLimit
      · obtain ⟨first, next, turned⟩ := exists_turn src search
        obtain ⟨second, final, ran⟩ := inductionHypothesis next
        refine ⟨max first second, final, ?_⟩
        rw [Search.run, if_pos early, turn_mono (Nat.le_max_left _ _) turned, Option.bind_some]
        exact run_mono (Nat.le_max_right _ _) ran
      · refine ⟨0, search, ?_⟩
        rw [Search.run, if_neg early]

/-- The search as the compressor starts it. -/
theorem searched_mono
    (wider : cap ≤ more)
    (searched : (if src.length > mfLimit then Search.first.run src cap src.length
      else some { Search.first with ip := 0 }) = some search) :
    (if src.length > mfLimit then Search.first.run src more src.length
      else some { Search.first with ip := 0 }) = some search := by
  split at searched
  · next room =>
    rw [if_pos room]
    exact run_mono wider searched
  · next room => rwa [if_neg room]

theorem compress_mono
    (wider : cap ≤ more)
    (packed : Web.lz4FastCompress src cap = some block) :
    Web.lz4FastCompress src more = some block := by
  unfold Web.lz4FastCompress at packed ⊢
  dsimp only at packed ⊢
  split at packed
  · cases packed
  · next short =>
    rw [if_neg short]
    obtain ⟨search, searched, put⟩ := Option.bind_eq_some_iff.mp packed
    rw [searched_mono wider searched, Option.bind_some]
    split at put
    · cases put
    · rwa [if_neg (by omega)]

/-- With room enough every short source is compressed. -/
theorem exists_compress (short : src.length < 65536) :
    ∃ cap block, Web.lz4FastCompress src cap = some block := by
  obtain ⟨first, search, searched⟩ : ∃ cap search,
      (if src.length > mfLimit then Search.first.run src cap src.length
        else some { Search.first with ip := 0 }) = some search := by
    split
    · exact exists_run src src.length Search.first
    · exact ⟨0, _, rfl⟩
  obtain ⟨room, room_eq⟩ : ∃ room, search.op.length + 1 + (src.length - search.anchor) / 255 + 1 +
      (src.length - search.anchor) = room := ⟨_, rfl⟩
  refine ⟨max first room, search.op ++ putLiteralLen (src.length - search.anchor) ++ src.drop search.anchor, ?_⟩
  unfold Web.lz4FastCompress
  dsimp only
  rw [if_neg (Nat.not_le.mpr short), searched_mono (Nat.le_max_left first room) searched,
    Option.bind_some, room_eq, if_neg (Nat.not_lt.mpr (Nat.le_max_right _ _))]

end Room

/-- For every source of less than 64 kB there is one block, and for every destination
the compressor either leaves the block at its front, with no access outside of the
buffers, or returns 0; it returns 0 where the block does not fit. -/
theorem lz4FastCompress_stays
    {src : List Byte}
    (short : src.length < 65536) :
    ∃ block enough, ∀ dst : List Byte,
      (lz4FastCompress src dst = .error .full ∨
        ∃ out, lz4FastCompress src dst = .ok out ∧ out.Holds dst.length block) ∧
      (dst.length < block.length → lz4FastCompress src dst = .error .full) ∧
      (enough ≤ dst.length → ∃ out, lz4FastCompress src dst = .ok out) := by
  obtain ⟨enough, block, packed⟩ := exists_compress short
  refine ⟨block, enough, fun dst => ?_⟩
  have agrees := lz4FastCompress_agrees src dst
  cases plain : Web.lz4FastCompress src dst.length with
  | none =>
      rw [plain] at agrees
      refine ⟨Or.inl agrees, fun _ => agrees, fun room => ?_⟩
      rw [compress_mono room packed] at plain
      cases plain
  | some written =>
      rw [plain] at agrees
      obtain ⟨out, stored, holds⟩ := agrees
      have same : written = block := by
        have left := compress_mono (Nat.le_max_left dst.length enough) plain
        rw [compress_mono (Nat.le_max_right dst.length enough) packed] at left
        exact (Option.some.inj left).symm
      obtain ⟨_, _, _, _, _, fits⟩ := compress_parse plain
      rw [same] at holds fits
      exact ⟨Or.inr ⟨out, stored, holds⟩, fun small => absurd fits (Nat.not_le.mpr small),
        fun _ => ⟨out, stored⟩⟩

/-- A byte that comes 24 times. -/
def repeated : List Byte := List.replicate 24 7

/-- The search finds a match of 18 bytes in it. -/
theorem lz4FastCompress_stays_repeated :
    Web.lz4FastCompress repeated 32 = some [0x1E, 7, 1, 0, 0x50, 7, 7, 7, 7, 7] ∧
      ∃ block enough, ∀ dst : List Byte,
        (lz4FastCompress repeated dst = .error .full ∨
          ∃ out, lz4FastCompress repeated dst = .ok out ∧ out.Holds dst.length block) ∧
        (dst.length < block.length → lz4FastCompress repeated dst = .error .full) ∧
        (enough ≤ dst.length → ∃ out, lz4FastCompress repeated dst = .ok out) :=
  ⟨by decide +kernel, lz4FastCompress_stays (by decide)⟩

end Checked
end Web
end TriCoreDap
