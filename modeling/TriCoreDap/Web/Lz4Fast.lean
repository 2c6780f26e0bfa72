import Mathlib.Logic.Function.Basic
import TriCoreDap.Library.Lz4

/-!
# The compressor of the trace stream

`lz4_fast_compress`: greedy, with one probe of a hash table at each position.
Pointers are offsets into the source, and the destination is what has been
written of it so far.
-/

namespace TriCoreDap
namespace Web

def mfLimit : Nat := 12
def lastLiterals : Nat := 5
def lz4FastHashBits : Nat := 12

def hash4 (value : Nat) : Nat := u32 (value * 2654435761) >>> (32 - lz4FastHashBits)

/-- A length past 15: 255s, then the rest. -/
def putLen (len : Nat) : List Byte :=
  if 255 ≤ len then 255 :: putLen (len - 255) else [UInt8.ofNat len]

/-- The variables of the search; `table` has an entry for each hash. -/
structure Search where
  ip : Nat
  anchor : Nat
  op : List Byte
  misses : Nat
  table : Nat → Nat

section Matching

variable (src : List Byte)

/-- Back over equal bytes: the match and its reference. -/
def back (anchor : Nat) : (ip ref : Nat) → Nat × Nat
  | ip, ref + 1 =>
      if anchor < ip ∧ src.getD (ip - 1) 0 = src.getD ref 0 then back anchor (ip - 1) ref
      else (ip, ref + 1)
  | ip, 0 => (ip, 0)

/-- Forward over equal bytes, `room` of them at most. -/
def forward : (room mp rp : Nat) → Nat
  | room + 1, mp, rp =>
      if src.getD mp 0 = src.getD rp 0 then forward room (mp + 1) (rp + 1) else mp
  | 0, mp, _ => mp

end Matching

/-- The token's literal length, and its bytes past the token. -/
def putLiteralLen (lit : Nat) : List Byte :=
  if lit ≥ 15 then UInt8.ofNat (15 <<< 4) :: putLen (lit - 15) else [UInt8.ofNat (lit <<< 4)]

/-- A sequence with `lit` literals from `anchor` on, or none where it does not fit in
`cap` bytes. -/
def putSequence
    (src : List Byte)
    (cap : Nat)
    (op : List Byte)
    (anchor ip ref mp : Nat) : Option (List Byte) :=
  let lit := ip - anchor
  let mlen := mp - ip - Lz4.minMatch
  if op.length + 1 + lit / 255 + 1 + lit + 2 + mlen / 255 + 1 > cap then none
  else
    let token := op.length
    let op := op ++ putLiteralLen lit
    let op := op ++ (src.drop anchor).take lit
    let off := (ip - ref) % 2 ^ 16
    let op := op ++ [byteOf off 0, byteOf off 1]
    if mlen ≥ 15 then some (op.modify token (· ||| 15) ++ putLen (mlen - 15))
    else some (op.modify token (· ||| UInt8.ofNat mlen))

namespace Search

/-- One turn of the search, or none where the output does not fit. -/
def turn (src : List Byte) (cap : Nat) (search : Search) : Option Search :=
  let matchlimit := src.length - lastLiterals
  let seq := le32 src search.ip
  let h := hash4 seq
  let ref := search.table h
  let table := Function.update search.table h (search.ip % 2 ^ 16)
  if ref ≥ search.ip ∨ src.getD ref 0 ≠ src.getD search.ip 0 ∨ le32 src ref ≠ seq then
    -- Incompressible stretches are skipped faster and faster.
    some { search with
      ip := search.ip + (1 + search.misses >>> 6)
      misses := u32 (search.misses + 1)
      table := table }
  else
    let start := back src search.anchor search.ip ref
    let mp := start.1 + Lz4.minMatch
    let mp := forward src (matchlimit - mp) mp (start.2 + Lz4.minMatch)
    (putSequence src cap search.op search.anchor start.1 start.2 mp).map fun op =>
      { ip := mp
        anchor := mp
        op := op
        misses := 0
        -- One more entry inside the match, for the next search.
        table :=
          if 0 < mp - 2 then
            Function.update table (hash4 (le32 src (mp - 2))) ((mp - 2) % 2 ^ 16)
          else table }

/-- `while (ip < mflimit)`; every turn goes forward, so the source's length is fuel
enough. -/
def run (src : List Byte) (cap : Nat) : (fuel : Nat) → Search → Option Search
  | 0, search => some search
  | fuel + 1, search =>
      if search.ip < src.length - mfLimit then (search.turn src cap).bind (run src cap fuel)
      else some search

/-- The first byte has nothing behind it. -/
def first : Search := ⟨1, 0, [], 0, fun _ => 0⟩

end Search

/-- The block, or none where the function returns 0. -/
def lz4FastCompress (src : List Byte) (cap : Nat) : Option (List Byte) :=
  if src.length ≥ 65536 then none
  else
    let searched :=
      if src.length > mfLimit then Search.first.run src cap src.length
      else some { Search.first with ip := 0 }
    searched.bind fun search =>
      let lit := src.length - search.anchor
      if search.op.length + 1 + lit / 255 + 1 + lit > cap then none
      else some (search.op ++ putLiteralLen lit ++ src.drop search.anchor)

end Web
end TriCoreDap
