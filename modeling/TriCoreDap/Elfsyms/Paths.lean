import TriCoreDap.Elfsyms.Types
import Mathlib.Data.List.Nodup
import Mathlib.Data.List.TakeWhile

/-!
# Paths name their nodes

When the way from the path of a node back to it ends at the node, for every node
of every variable.
-/

namespace TriCoreDap
namespace Elfsyms

/-- The node, or a child of one below. -/
inductive Reaches (root : Node) : Node → Prop
  | self : Reaches root root
  | child {parent node : Node} (reached : Reaches root parent)
      (below : node ∈ parent.children 0 none) : Reaches root node

/-- No character of the name ends it in a path. -/
def Free (name : Text) : Prop := ∀ ch ∈ name, isCut ch = false

/-- Every node of a variable is found by its path. -/
def ResolvesPaths (int : PyInt) (table : VariableTable) : Prop :=
  ∀ var ∈ table.vars, ∀ node, Reaches (nodeOf var) node →
    resolvePath int table node.path = .ok (some node)

/-- A node whose members can be told apart in a path. -/
structure Node.Distinct (node : Node) : Prop where
  free : ∀ m ∈ node.type.members, Free m.name.1
  apart : ∀ m ∈ node.type.members, ∀ m' ∈ node.type.members, m.name = m'.name → m = m'

/-- The names of members can be told apart, and no variable is named like a piece of another. -/
structure WellNamed (table : VariableTable) : Prop where
  distinct : ∀ var ∈ table.vars, ∀ node, Reaches (nodeOf var) node →
    HasMembers node.type.kind → node.Distinct
  own : ∀ var ∈ table.vars, ∀ node, Reaches (nodeOf var) node → node ≠ nodeOf var →
    ∀ other ∈ table.vars, other.name ≠ node.path

/-! ## Children -/

variable {int : PyInt} {table : VariableTable} {node child root : Node} {var : Variable}
  {elem : CType} {m : Member CType} {rest name : Text}

theorem Node.children_elem (found : node.elem? = some elem) (start : Nat) (limit : Option Nat) :
    node.children start limit =
      (List.range' start
        (((limit.map fun limit => min node.type.count (start + limit)).getD node.type.count) -
          start)).map (node.element elem) := by
  rw [Node.children, found]

theorem Node.children_members (found : node.elem? = none) (members : HasMembers node.type.kind) :
    node.children 0 none = node.type.members.map node.field := by
  rw [Node.children, found, if_pos members]
  rfl

theorem Node.elem?_members (members : HasMembers node.type.kind) : node.elem? = none := by
  rw [Node.elem?, if_neg]
  intro array
  rw [HasMembers, array] at members
  simp at members

/-- A child is an element of an array or a member. -/
theorem Node.mem_children (below : child ∈ node.children 0 none) :
    (∃ elem i, node.elem? = some elem ∧ i < node.type.count ∧ child = node.element elem i) ∨
      ∃ m ∈ node.type.members, HasMembers node.type.kind ∧ child = node.field m := by
  cases found : node.elem? with
  | some elem =>
      rw [Node.children_elem found] at below
      obtain ⟨i, inside, rfl⟩ := List.mem_map.mp below
      refine Or.inl ⟨elem, i, rfl, ?_, rfl⟩
      rw [List.mem_range'_1, Option.map_none, Option.getD_none, Nat.sub_zero, Nat.zero_add] at inside
      exact inside.2
  | none =>
      rw [Node.children, found] at below
      split_ifs at below with members
      · obtain ⟨m, member, rfl⟩ := List.mem_map.mp below
        exact Or.inr ⟨m, member, members, rfl⟩
      · exact absurd below List.not_mem_nil

theorem Node.field_mem (member : m ∈ node.type.members) (members : HasMembers node.type.kind) :
    node.field m ∈ node.children 0 none := by
  rw [Node.children_members (Node.elem?_members members) members]
  exact List.mem_map_of_mem member

/-- The one element from `i` on. -/
theorem Node.children_one (found : node.elem? = some elem) (inside : i < node.type.count) :
    node.children i (some 1) = [node.element elem i] := by
  have one : min node.type.count (i + 1) - i = 1 := by omega
  rw [Node.children_elem found, Option.map_some, Option.getD_some, one]
  rfl

/-! ## What a step adds to the path -/

theorem Node.path_child (below : child ∈ node.children 0 none) :
    ∃ text, child.path = node.path ++ text ∧ text ≠ [] ∧ child.name.length ≤ text.length := by
  rcases Node.mem_children below with ⟨elem, i, -, -, rfl⟩ | ⟨m, -, -, rfl⟩
  · exact ⟨indexText i, rfl, List.cons_ne_nil _ _, le_rfl⟩
  · exact ⟨'.' :: m.name.1, rfl, List.cons_ne_nil _ _, Nat.le_succ _⟩

theorem isDigit_decimal (n : Nat) : ∀ ch ∈ decimal n, ch.isDigit = true :=
  fun _ digit => Nat.isDigit_of_mem_toDigits (by decide) (by decide) digit

theorem isCut_decimal (n : Nat) : ∀ ch ∈ decimal n, isCut ch = false := by
  intro ch digit
  have isDigit := isDigit_decimal n ch digit
  rw [isCut, decide_eq_false_iff_not]
  rintro (rfl | rfl)
  · cases isDigit
  · cases isDigit

/-- The text of a child begins with a cut, its only one. -/
theorem Node.path_child_cut
    (distinct : HasMembers node.type.kind → node.Distinct)
    (below : child ∈ node.children 0 none) :
    ∃ ch later, child.path = node.path ++ ch :: later ∧ isCut ch = true ∧
      ∀ c ∈ later, isCut c = false := by
  rcases Node.mem_children below with ⟨elem, i, -, -, rfl⟩ | ⟨m, member, members, rfl⟩
  · refine ⟨'[', _, rfl, rfl, fun c inside => ?_⟩
    rcases List.mem_append.mp inside with digit | close
    · exact isCut_decimal i c digit
    · rw [List.mem_singleton.mp close]
      rfl
  · exact ⟨'.', _, rfl, rfl, (distinct members).free m member⟩

/-! ## Cuts of a path -/

theorem prefixCandidates_append (first second : Text) :
    prefixCandidates (first ++ second) =
      (prefixCandidates second).map (first ++ ·) ++ prefixCandidates first := by
  have low : (List.range first.length).filter (fun i => ((first ++ second)[i]?).any isCut) =
      (List.range first.length).filter fun i => (first[i]?).any isCut := by
    apply List.filter_congr
    intro i inside
    rw [List.getElem?_append_left (List.mem_range.mp inside)]
  have high : ((List.range second.length).map (first.length + ·)).filter
        (fun i => ((first ++ second)[i]?).any isCut) =
      ((List.range second.length).filter fun i => (second[i]?).any isCut).map
        (first.length + ·) := by
    rw [List.filter_map]
    congr 2
    funext i
    rw [Function.comp_apply, List.getElem?_append_right (Nat.le_add_right _ _),
      Nat.add_sub_cancel_left]
  rw [prefixCandidates, prefixCandidates, prefixCandidates, List.length_append, List.range_add,
    List.filter_append, low, high, List.reverse_append, List.map_append, ← List.map_reverse,
    List.map_map, List.map_map]
  congr 1
  · apply List.map_congr_left
    intro i _
    exact List.take_length_add_append i
  · apply List.map_congr_left
    intro i inside
    have inside := List.mem_range.mp (List.mem_filter.mp (List.mem_reverse.mp inside)).1
    exact List.take_append_of_le_length inside.le

/-- Only its first character cuts a path at a child. -/
theorem prefixCandidates_cons {ch : Char} (cut : isCut ch = true)
    (whole : ∀ later ∈ rest, isCut later = false) : prefixCandidates (ch :: rest) = [[]] := by
  have first : prefixCandidates [ch] = [[]] := by
    simp [prefixCandidates, List.range_succ, cut]
  have none : prefixCandidates rest = [] := by
    rw [prefixCandidates, List.map_eq_nil_iff, List.reverse_eq_nil_iff, List.filter_eq_nil_iff]
    intro i inside
    rw [List.getElem?_eq_getElem (List.mem_range.mp inside), Option.any_some,
      whole _ (List.getElem_mem _)]
    exact Bool.false_ne_true
  rw [show ch :: rest = [ch] ++ rest from rfl, prefixCandidates_append, first, none]
  rfl

/-- The cuts of the path of a child are its parent and those of its parent. -/
theorem Node.prefixCandidates_child
    (distinct : HasMembers node.type.kind → node.Distinct)
    (below : child ∈ node.children 0 none) :
    prefixCandidates child.path = node.path :: prefixCandidates node.path := by
  obtain ⟨ch, later, path_eq, cut, whole⟩ := Node.path_child_cut distinct below
  rw [path_eq, prefixCandidates_append, prefixCandidates_cons cut whole, List.map_singleton,
    List.append_nil, List.singleton_append]

/-! ## The table -/

theorem VariableTable.get_eq_some (found : table.get name = some var) :
    var ∈ table.vars ∧ var.name = name :=
  ⟨List.mem_of_find?_eq_some found, by simpa using List.find?_some found⟩

theorem VariableTable.get_name (member : var ∈ table.vars) : table.get var.name = some var := by
  cases found : table.get var.name with
  | none => simpa using List.find?_eq_none.mp found var member
  | some other =>
      obtain ⟨member', same⟩ := VariableTable.get_eq_some found
      rw [List.inj_on_of_nodup_map table.distinct member' member same]

theorem VariableTable.get_eq_none (other : ∀ var ∈ table.vars, var.name ≠ name) :
    table.get name = none := by
  rw [VariableTable.get, List.find?_eq_none]
  intro var member
  rw [decide_eq_true_eq]
  exact other var member

/-! ## Nodes of a variable -/

theorem Reaches.path_eq (reached : Reaches root node) :
    ∃ text, node.path = root.path ++ text ∧ (node = root ∨ text ≠ []) := by
  induction reached with
  | self => exact ⟨[], (List.append_nil _).symm, Or.inl rfl⟩
  | child reached below inductionHypothesis =>
      obtain ⟨text, path_eq, -⟩ := inductionHypothesis
      obtain ⟨more, child_eq, some_more, -⟩ := Node.path_child below
      refine ⟨text ++ more, ?_, Or.inr fun none => some_more (List.append_eq_nil_iff.mp none).2⟩
      rw [child_eq, path_eq, List.append_assoc]

theorem Reaches.child_ne (reached : Reaches root node) (below : child ∈ node.children 0 none) :
    child ≠ root := by
  obtain ⟨text, path_eq, -⟩ := reached.path_eq
  obtain ⟨more, child_eq, some_more, -⟩ := Node.path_child below
  rintro rfl
  rw [path_eq, List.append_assoc, List.self_eq_append_right] at child_eq
  exact some_more (List.append_eq_nil_iff.mp child_eq).2

/-- The variable is the longest name that the path begins with. -/
theorem WellNamed.find_best
    (well : WellNamed table) (member : var ∈ table.vars)
    (reached : Reaches (nodeOf var) node) (inside : node ≠ nodeOf var) :
    (prefixCandidates node.path).find? (fun name => (table.get name).isSome) = some var.name := by
  induction reached with
  | self => exact absurd rfl inside
  | @child parent node reached below inductionHypothesis =>
      rw [Node.prefixCandidates_child (well.distinct var member parent reached) below,
        List.find?_cons]
      by_cases top : parent = nodeOf var
      · have found : table.get parent.path = some var := by
          rw [top]
          exact VariableTable.get_name member
        rw [found, top]
        rfl
      · rw [VariableTable.get_eq_none (well.own var member parent reached top)]
        exact inductionHypothesis top

/-! ## The walk -/

/-- What can follow a child in a path. -/
def Continues (rest : Text) : Prop := ∀ ch, rest.head? = some ch → isCut ch = true

theorem continues_nil : Continues [] := fun _ none => by cases none

theorem continues_cons {ch : Char} (cut : isCut ch = true) (later : Text) :
    Continues (ch :: later) := by
  intro c first
  rw [← Option.some.inj first]
  exact cut

/-- The key of a member ends where its name does. -/
theorem key_append (free : Free name) (continues : Continues rest) :
    (name ++ rest).takeWhile (fun ch => !isCut ch) = name ∧
      (name ++ rest).dropWhile (fun ch => !isCut ch) = rest := by
  have inside : ∀ ch ∈ name, (!isCut ch) = true := by
    intro ch member
    rw [free ch member]
    rfl
  rw [List.takeWhile_append_of_pos inside, List.dropWhile_append_of_pos inside]
  cases rest with
  | nil => exact ⟨List.append_nil _, rfl⟩
  | cons ch later =>
      have cut := continues ch rfl
      simp [cut]

theorem index_append (i : Nat) (rest : Text) :
    (decimal i ++ ']' :: rest).takeWhile (· ≠ ']') = decimal i ∧
      (decimal i ++ ']' :: rest).dropWhile (· ≠ ']') = ']' :: rest := by
  have inside : ∀ ch ∈ decimal i, decide (ch ≠ ']') = true := by
    intro ch digit
    rw [decide_eq_true_eq]
    rintro rfl
    cases isDigit_decimal i _ digit
  rw [List.takeWhile_append_of_pos inside, List.dropWhile_append_of_pos inside]
  exact ⟨List.append_nil _, rfl⟩

theorem walk_index (found : node.elem? = some elem) (inside : i < node.type.count)
    (rest : Text) : walk int node (indexText i ++ rest) = walk int (node.element elem i) rest := by
  have array : node.type.kind = .array := by
    rw [Node.elem?] at found
    split_ifs at found with array
    exact array
  have text : indexText i ++ rest = '[' :: (decimal i ++ ']' :: rest) := by
    simp [indexText]
  have close : ']' ∈ decimal i ++ ']' :: rest := by simp
  have within : (0 : Int) ≤ i ∧ (i : Int) < node.type.count := by omega
  rw [text, walk, if_neg (by decide), if_pos rfl, if_pos ⟨close, array⟩, (index_append i rest).1,
    int.parse_decimal]
  simp only [within, and_self, if_true, Int.toNat_natCast, Node.children_one found inside,
    (index_append i rest).2, List.tail_cons]

theorem walk_field (distinct : node.Distinct) (members : HasMembers node.type.kind)
    (member : m ∈ node.type.members) (continues : Continues rest) :
    walk int node ('.' :: (m.name.1 ++ rest)) = walk int (node.field m) rest := by
  obtain ⟨key, after⟩ := key_append (distinct.free m member) continues
  rw [walk, if_pos rfl]
  simp only [key, after, members, if_true]
  have found : node.field m ∈ (node.children 0 none).filter fun c => c.name = m.name.1 := by
    rw [List.mem_filter, decide_eq_true_eq]
    exact ⟨Node.field_mem member members, rfl⟩
  have same : ∀ c ∈ (node.children 0 none).filter fun c => c.name = m.name.1,
      c = node.field m := by
    intro c inside
    rw [List.mem_filter, decide_eq_true_eq, Node.children_members (Node.elem?_members members) members]
      at inside
    obtain ⟨m', member', rfl⟩ := List.mem_map.mp inside.1
    rw [distinct.apart m' member' m member (Subtype.ext inside.2)]
  cases matching : (node.children 0 none).filter fun c => c.name = m.name.1 with
  | nil =>
      rw [matching] at found
      exact absurd found List.not_mem_nil
  | cons first others =>
      rw [matching] at same
      rw [same first List.mem_cons_self]

/-- The text of a child leads to the child. -/
theorem walk_child
    (distinct : HasMembers node.type.kind → node.Distinct)
    (below : child ∈ node.children 0 none) {text : Text} (path_eq : child.path = node.path ++ text)
    (continues : Continues rest) :
    walk int node (text ++ rest) = walk int child rest := by
  rcases Node.mem_children below with ⟨elem, i, found, inside, rfl⟩ | ⟨m, member, members, rfl⟩
  · rw [← List.append_cancel_left path_eq]
    exact walk_index found inside rest
  · rw [← List.append_cancel_left path_eq]
    exact walk_field (distinct members) members member continues

/-- From the root, the path of a node leads to it. -/
theorem walk_reaches
    (distinct : ∀ node, Reaches root node → HasMembers node.type.kind → node.Distinct)
    (reached : Reaches root node) {text : Text} (path_eq : node.path = root.path ++ text)
    (continues : Continues rest) :
    walk int root (text ++ rest) = walk int node rest := by
  induction reached generalizing text rest with
  | self =>
      rw [List.self_eq_append_right.mp path_eq]
      rfl
  | @child parent node reached below inductionHypothesis =>
      obtain ⟨before, parent_eq, -⟩ := reached.path_eq
      obtain ⟨ch, later, child_eq, cut, -⟩ := Node.path_child_cut (distinct parent reached) below
      have text_eq : text = before ++ ch :: later := by
        refine (List.append_right_inj root.path).mp ?_
        rw [← path_eq, child_eq, parent_eq, List.append_assoc]
      have starts : Continues (ch :: later ++ rest) := continues_cons cut (later ++ rest)
      rw [text_eq, List.append_assoc, inductionHypothesis parent_eq starts]
      exact walk_child (distinct parent reached) below child_eq continues

/-- With good names every node is found. -/
theorem WellNamed.resolvesPaths (well : WellNamed table) : ResolvesPaths int table := by
  intro var member node reached
  by_cases top : node = nodeOf var
  · rw [top, resolvePath, show (nodeOf var).path = var.name from rfl,
      VariableTable.get_name member]
  · have own : table.get node.path = none :=
      VariableTable.get_eq_none (well.own var member node reached top)
    obtain ⟨text, path_eq, -⟩ := reached.path_eq
    have rest : node.path.drop var.name.length = text := by
      rw [path_eq]
      exact List.drop_left
    have walked : walk int (nodeOf var) (text ++ []) = walk int node [] :=
      walk_reaches (well.distinct var member) reached path_eq continues_nil
    rw [List.append_nil, walk] at walked
    rw [resolvePath, own]
    simp only [well.find_best member reached top, VariableTable.get_name member, rest, walked]

/-! ## What the names of found nodes are -/

/-- A name that a path can spell: of a member, of an element. -/
def Spelled (name : Text) : Prop := Free name ∨ name.head? = some '['

theorem free_takeWhile (body : Text) : Free (body.takeWhile fun ch => !isCut ch) := by
  intro ch inside
  simpa using List.mem_takeWhile_imp inside

/-- Below an array there are elements alone. -/
theorem Node.spelled_of_array {start : Nat} {limit : Option Nat}
    (array : node.type.kind = .array) (below : child ∈ node.children start limit) :
    Spelled child.name := by
  cases found : node.elem? with
  | some elem =>
      rw [Node.children_elem found] at below
      obtain ⟨i, -, rfl⟩ := List.mem_map.mp below
      exact Or.inr rfl
  | none =>
      have none_below : ¬HasMembers node.type.kind := by
        rw [array, HasMembers]
        decide
      rw [Node.children, found, if_neg none_below] at below
      exact absurd below List.not_mem_nil

/-- What the walk ends at below the root has a name that a path can spell. -/
theorem walk_name (start : Spelled node.name ∨ node = root)
    (found : walk int node rest = .ok (some child)) :
    Spelled child.name ∨ child = root := by
  fun_induction walk int node rest with
  | case1 node =>
      rw [← Option.some.inj (Except.ok.inj found)]
      exact start
  | case3 node body key members first others matching inductionHypothesis =>
      apply inductionHypothesis (Or.inl (Or.inl _)) found
      have member : first ∈ (node.children 0 none).filter fun c => c.name = key :=
        matching ▸ List.mem_cons_self
      rw [List.mem_filter, decide_eq_true_eq] at member
      rw [member.2]
      exact free_takeWhile body
  | case7 node body array idx parsed inside first others one _ inductionHypothesis =>
      apply inductionHypothesis (Or.inl _) found
      exact Node.spelled_of_array array.2 (one ▸ List.mem_cons_self)
  | case2 | case4 | case5 | case6 | case8 | case9 | case10 => cases found

/-- What a path resolves to is named by it, or is the variable of that name. -/
theorem resolvePath_name {path : Text} (found : resolvePath int table path = .ok (some node)) :
    Spelled node.name ∨ ∃ var ∈ table.vars, node = nodeOf var := by
  rw [resolvePath] at found
  cases whole : table.get path with
  | some var =>
      simp only [whole] at found
      have same := Option.some.inj (Except.ok.inj found)
      exact Or.inr ⟨var, (VariableTable.get_eq_some whole).1, same.symm⟩
  | none =>
      simp only [whole] at found
      cases longest : (prefixCandidates path).find? fun name => (table.get name).isSome with
      | none =>
          simp only [longest] at found
          cases found
      | some best =>
          simp only [longest] at found
          cases first : table.get best with
          | none =>
              simp only [first] at found
              cases found
          | some var =>
              simp only [first] at found
              rcases walk_name (Or.inr rfl) found with spelled | top
              · exact Or.inl spelled
              · exact Or.inr ⟨var, (VariableTable.get_eq_some first).1, top⟩

/-- Inside a variable the path of a node is longer than its name. -/
theorem Reaches.name_ne (reached : Reaches (nodeOf var) node) (inside : node ≠ nodeOf var) :
    node.name ≠ node.path := by
  cases reached with
  | self => exact absurd rfl inside
  | @child parent _ reached below =>
      obtain ⟨before, parent_eq, -⟩ := reached.path_eq
      obtain ⟨text, path_eq, -, name_le⟩ := Node.path_child below
      intro same
      have some_name : 0 < var.name.length := List.length_pos_iff.mpr var.named
      have lengths := congrArg List.length same
      rw [path_eq, parent_eq, List.length_append, List.length_append,
        show (nodeOf var).path = var.name from rfl] at lengths
      omega

/-! ## The condition -/

section Necessary

variable (resolves : ResolvesPaths int table) (member : var ∈ table.vars)
include resolves member

/-- The name of a member found again can be spelled. -/
theorem ResolvesPaths.free (reached : Reaches (nodeOf var) node)
    (members : HasMembers node.type.kind) (inside : m ∈ node.type.members) : Free m.name.1 := by
  have below := Node.field_mem inside members
  have found := resolves var member _ (reached.child below)
  rcases resolvePath_name found with spelled | ⟨other, -, top⟩
  · exact spelled.resolve_right m.name.2
  · refine absurd ?_ ((reached.child below).name_ne (reached.child_ne below))
    rw [top]
    rfl

/-- Two members of one name are found by one path. -/
theorem ResolvesPaths.apart (reached : Reaches (nodeOf var) node)
    (members : HasMembers node.type.kind) {m' : Member CType} (inside : m ∈ node.type.members)
    (inside' : m' ∈ node.type.members) (same : m.name = m'.name) : m = m' := by
  have found := resolves var member _ (reached.child (Node.field_mem inside members))
  have found' := resolves var member _ (reached.child (Node.field_mem inside' members))
  have path_eq : (node.field m).path = (node.field m').path := by
    rw [Node.field, Node.field, same]
  rw [path_eq, found'] at found
  have nodes := Option.some.inj (Except.ok.inj found)
  obtain ⟨name, offset, type, bitSize, bitShift⟩ := m
  obtain ⟨name', offset', type', bitSize', bitShift'⟩ := m'
  simp only [Node.field, Node.mk.injEq, Nat.add_left_cancel_iff] at nodes
  obtain ⟨-, -, rfl, rfl, rfl, rfl⟩ := nodes
  rw [Member.mk.injEq]
  exact ⟨same, rfl, rfl, rfl, rfl⟩

/-- A variable of the name of a piece hides the piece. -/
theorem ResolvesPaths.own (reached : Reaches (nodeOf var) node) (inside : node ≠ nodeOf var)
    {other : Variable} (member' : other ∈ table.vars) : other.name ≠ node.path := by
  intro same
  have found := resolves var member node reached
  rw [resolvePath, ← same, VariableTable.get_name member'] at found
  have top : nodeOf other = node := Option.some.inj (Except.ok.inj found)
  refine reached.name_ne inside ?_
  rw [← top]
  rfl

end Necessary

/-- Every node is found by its path exactly when the names of members can be told apart
and no variable is named like a piece of another. -/
theorem resolvesPaths_iff (int : PyInt) (table : VariableTable) :
    ResolvesPaths int table ↔ WellNamed table where
  mp resolves :=
    { distinct := fun _ member _ reached members =>
        { free := fun _ inside => resolves.free member reached members inside
          apart := fun _ inside _ inside' same =>
            resolves.apart member reached members inside inside' same }
      own := fun _ member _ reached inside _ member' =>
        resolves.own member reached inside member' }
  mpr well := well.resolvesPaths

/-! ## Members without a name -/

/-- Unnamed members at one place get one name. -/
theorem MemberDie.name_eq {d d' : MemberDie}
    (plain : d.inheritance = false) (plain' : d'.inheritance = false)
    (unnamed : d.name.1 = []) (unnamed' : d'.name.1 = [])
    (same : d.placed.offset = d'.placed.offset) : d.member.name = d'.member.name := by
  simp [MemberDie.member, plain, plain', unnamed, unnamed', same]

/-- `int()` of a string of digits. -/
def plainInt : PyInt where
  parse text :=
    if !text.isEmpty && text.all Char.isDigit then some (Nat.ofDigitChars 10 text 0) else none
  parse_decimal n := by
    have some_digit : (decimal n).isEmpty = false := by
      rw [List.isEmpty_eq_false_iff]
      exact Nat.toDigits_ne_nil
    have digits : (decimal n).all Char.isDigit = true := List.all_eq_true.mpr (isDigit_decimal n)
    rw [some_digit, digits, decimal, Nat.ofDigitChars_ten_toDigits]
    rfl

/-- An unsigned number of `size` bytes. -/
def unsignedType (size : Nat) : CType :=
  { kind := .base, name := ['u'], size, encoding := .unsigned, members := [], elem := none,
    count := 0, enumerators := [], target := [] }

/-- `struct { unsigned x; }` with a number of `size` bytes, a member without a name. -/
def unnamedStruct (size : Nat) : MemberDie :=
  { inheritance := false, static := false, name := ⟨[], by decide⟩,
    type :=
      { kind := .struct, name := [], size, encoding := .none,
        members := [⟨⟨['x'], by decide⟩, 0, unsignedType size, 0, 0⟩], elem := none,
        count := 0, enumerators := [], target := [] },
    location := 0, byteSize := none, bitSize := 0, dataBitOffset := none, bitOffset := none }

/-- `union { struct { uint32_t x; }; struct { uint16_t x; }; } u;` -/
def unnamedStructs : VariableTable where
  vars :=
    [{ name := ['u'], addr := 0x1000,
       type :=
        { kind := .union, name := [], size := 4, encoding := .none,
          members := members [unnamedStruct 4, unnamedStruct 2], elem := none,
          count := 0, enumerators := [], target := [] },
       named := List.cons_ne_nil _ _ }]
  distinct := List.nodup_singleton _

/-- Of two unnamed structs in a union only the first has a path. -/
theorem resolvesPaths_unnamedStructs : ¬ResolvesPaths plainInt unnamedStructs := by
  intro resolves
  have same : (unnamedStruct 4).member = (unnamedStruct 2).member :=
    resolves.apart List.mem_cons_self Reaches.self (Or.inr (Or.inl rfl)) List.mem_cons_self
      (List.mem_cons_of_mem _ List.mem_cons_self)
      (MemberDie.name_eq rfl rfl rfl rfl rfl)
  have sizes : 4 = 2 := congrArg (fun m : Member CType => m.type.size) same
  exact absurd sizes (by decide)

end Elfsyms
end TriCoreDap
