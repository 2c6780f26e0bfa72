import TriCoreDap.Signals.Bitfields

/-!
# Variables and their types

`elfsyms.py`: the types read from an ELF's DWARF, a variable as a tree of nodes,
and the way from a path back to its node.
-/

namespace TriCoreDap
namespace Elfsyms

open Signals (TypeKind Encoding)

/-- A Python string. -/
abbrev Text := List Char

/-- `'%d' % n` -/
def decimal (n : Nat) : Text := Nat.toDigits 10 n

/-- The name of a member.  In the source language none begins with a bracket. -/
abbrev MemberName := {name : Text // name.head? ≠ some '['}

structure Member (T : Type) where
  name : MemberName
  offset : Nat
  type : T
  bitSize : Nat
  bitShift : Nat

structure CType where
  kind : TypeKind
  name : Text
  size : Nat
  encoding : Encoding
  members : List (Member CType)
  elem : Option CType
  count : Nat
  enumerators : List (Int × Text)
  target : Text

/-- `Variable`.  None is read without a name. -/
structure Variable where
  name : Text
  addr : Nat
  type : CType
  named : name ≠ []

/-- The variables of an ELF, a `dict` by their names. -/
structure VariableTable where
  vars : List Variable
  distinct : (vars.map Variable.name).Nodup

/-- `variables.get(name)` -/
def VariableTable.get (table : VariableTable) (name : Text) : Option Variable :=
  table.vars.find? fun var => var.name = name

/-- A piece of a variable. -/
structure Node where
  path : Text
  name : Text
  addr : Nat
  type : CType
  bitSize : Nat
  bitShift : Nat

/-- `t.kind in ('struct', 'union', 'class')` -/
def HasMembers (kind : TypeKind) : Prop := kind = .struct ∨ kind = .union ∨ kind = .classType

instance (kind : TypeKind) : Decidable (HasMembers kind) := inferInstanceAs (Decidable (_ ∨ _ ∨ _))

/-- `'[%d]' % i` -/
def indexText (i : Nat) : Text := '[' :: (decimal i ++ [']'])

namespace Node

/-- Element `i` of an array. -/
def element (node : Node) (elem : CType) (i : Nat) : Node where
  path := node.path ++ indexText i
  name := indexText i
  addr := node.addr + i * elem.size
  type := elem
  bitSize := 0
  bitShift := 0

/-- A member of a struct. -/
def field (node : Node) (m : Member CType) : Node where
  path := node.path ++ '.' :: m.name.1
  name := m.name.1
  addr := node.addr + m.offset
  type := m.type
  bitSize := m.bitSize
  bitShift := m.bitShift

/-- The element type, where the node is an array with one. -/
def elem? (node : Node) : Option CType :=
  if node.type.kind = .array then node.type.elem else none

/-- `Node.children`. -/
def children (node : Node) (start : Nat) (limit : Option Nat) : List Node :=
  match node.elem? with
  | some elem =>
      let stop := (limit.map fun limit => min node.type.count (start + limit)).getD node.type.count
      (List.range' start (stop - start)).map (node.element elem)
  | none =>
      if HasMembers node.type.kind then
        let mem := node.type.members.drop start
        ((limit.map fun limit => mem.take limit).getD mem).map node.field
      else []

end Node

/-- `node_of`. -/
def nodeOf (var : Variable) : Node where
  path := var.name
  name := var.name
  addr := var.addr
  type := var.type
  bitSize := 0
  bitShift := 0

/-! ## Paths -/

/-- `ch in '.['` -/
def isCut (ch : Char) : Bool := ch = '.' ∨ ch = '['

/-- `_prefix_candidates`. -/
def prefixCandidates (path : Text) : List Text :=
  let cuts := (List.range path.length).filter fun i => (path[i]?).any isCut
  cuts.reverse.map path.take

/-- Python's `int()` of a string; `none` where it raises. -/
structure PyInt where
  parse : Text → Option Int
  parse_decimal : ∀ n : Nat, parse (decimal n) = some (n : Int)

inductive PyError
  | valueError
  | indexError

/-- The loop of `resolve_path`. -/
def walk (int : PyInt) (node : Node) (rest : Text) : Except PyError (Option Node) :=
  match rest with
  | [] => .ok (some node)
  | ch :: body =>
      if ch = '.' then
        let key := body.takeWhile fun ch => !isCut ch
        if HasMembers node.type.kind then
          match (node.children 0 none).filter fun c => c.name = key with
          | [] => .ok none
          | child :: _ => walk int child (body.dropWhile fun ch => !isCut ch)
        else .ok none
      else if ch = '[' then
        if ']' ∈ body ∧ node.type.kind = .array then
          match int.parse (body.takeWhile (· ≠ ']')) with
          | none => .error .valueError
          | some idx =>
              if 0 ≤ idx ∧ idx < node.type.count then
                match node.children idx.toNat (some 1) with
                | [] => .error .indexError
                | child :: _ => walk int child (body.dropWhile (· ≠ ']')).tail
              else .ok none
        else .ok none
      else .ok none
termination_by rest.length
decreasing_by
  · exact Nat.lt_succ_of_le (List.dropWhile_suffix _).length_le
  · exact Nat.lt_succ_of_le
      ((List.tail_suffix _).trans (List.dropWhile_suffix _)).length_le

/-- `resolve_path`. -/
def resolvePath (int : PyInt) (table : VariableTable) (path : Text) :
    Except PyError (Option Node) :=
  match table.get path with
  | some var => .ok (some (nodeOf var))
  | none =>
      match (prefixCandidates path).find? fun name => (table.get name).isSome with
      | none => .ok none
      | some best =>
          match table.get best with
          | none => .ok none
          | some var => walk int (nodeOf var) (path.drop best.length)

/-! ## Members -/

/-- What `_Parser._members` reads of a child of a struct's entry. -/
structure MemberDie where
  /-- `DW_TAG_inheritance` instead of `DW_TAG_member`. -/
  inheritance : Bool
  /-- A static member: external or a declaration. -/
  static : Bool
  name : MemberName
  type : CType
  location : Nat
  byteSize : Option Nat
  bitSize : Nat
  dataBitOffset : Option Nat
  bitOffset : Option Nat

namespace MemberDie

/-- What decides on the place of the member. -/
def placed (d : MemberDie) : Signals.MemberDie where
  location := d.location
  type := ⟨d.type.kind, d.type.size, d.type.encoding⟩
  byteSize := d.byteSize
  bitSize := d.bitSize
  dataBitOffset := d.dataBitOffset
  bitOffset := d.bitOffset

theorem head?_angle (text : Text) : ('<' :: text).head? ≠ some '[' := by
  rw [List.head?_cons]
  decide

/-- `'<%s>' % (base.name or 'base')` -/
def baseName (base : CType) : MemberName :=
  let name := if base.name = [] then ['b', 'a', 's', 'e'] else base.name
  ⟨'<' :: (name ++ ['>']), head?_angle _⟩

/-- `'<anon@%d>' % off` -/
def anonName (off : Nat) : MemberName :=
  ⟨'<' :: (['a', 'n', 'o', 'n', '@'] ++ decimal off ++ ['>']), head?_angle _⟩

/-- The type of the member, of the size of the storage unit. -/
def storage (d : MemberDie) : CType :=
  if d.bitSize ≠ 0 ∧ d.placed.unit ≠ d.type.size ∧
      (d.type.kind = .base ∨ d.type.kind = .enum) then
    { kind := d.type.kind, name := d.type.name, size := d.placed.unit,
      encoding := d.type.encoding, members := [], elem := none, count := 0,
      enumerators := d.type.enumerators, target := [] }
  else d.type

/-- The member. -/
def member (d : MemberDie) : Member CType :=
  if d.inheritance then
    { name := baseName d.type, offset := d.location, type := d.type, bitSize := 0, bitShift := 0 }
  else
    { name := if d.name.1 = [] then anonName d.placed.offset else d.name
      offset := d.placed.offset
      type := d.storage
      bitSize := d.bitSize
      bitShift := d.placed.node.bitShift }

end MemberDie

/-- `_Parser._members`. -/
def members (dies : List MemberDie) : List (Member CType) :=
  (dies.filter fun d => d.inheritance || !d.static).map MemberDie.member

end Elfsyms
end TriCoreDap
