import Mathlib.Data.List.Infix

/-!
# Searching for a pattern

The first place of a pattern in a list, given as what is left from there on, and
how little of a list without it has to be kept when the list goes on.
-/

namespace TriCoreDap

variable {α : Type}

/-- A pattern that fits the list stands in it already when it stands in a longer one. -/
theorem prefix_of_prefix_append {pattern list more : List α}
    (fits : pattern.length ≤ list.length)
    (stands : pattern <+: list ++ more) : pattern <+: list :=
  List.prefix_of_prefix_length_le stands (List.prefix_append list more) fits

variable [DecidableEq α]

/-- `list.find(pattern)`: the list from the first place of the pattern on. -/
def findFrom (pattern : List α) : List α → Option (List α)
  | [] => if pattern = [] then some [] else none
  | first :: rest =>
      if pattern <+: first :: rest then some (first :: rest) else findFrom pattern rest

variable {pattern list found more : List α}

/-- Where the pattern stands, it is found at once. -/
theorem findFrom_of_stands (stands : pattern <+: list) : findFrom pattern list = some list := by
  cases list with
  | nil => rw [findFrom, if_pos (List.prefix_nil.mp stands)]
  | cons first rest => rw [findFrom, if_pos stands]

theorem findFrom_cons_of_absent {first : α} (stands : ¬pattern <+: first :: list) :
    findFrom pattern (first :: list) = findFrom pattern list := by
  rw [findFrom, if_neg stands]

theorem prefix_of_findFrom (search : findFrom pattern list = some found) : pattern <+: found := by
  induction list with
  | nil =>
      rw [findFrom] at search
      split_ifs at search with empty
      rw [empty]
      exact List.nil_prefix
  | cons first rest inductionHypothesis =>
      rw [findFrom] at search
      split_ifs at search with stands
      · exact Option.some.inj search ▸ stands
      · exact inductionHypothesis search

/-- What is found is a part of the list. -/
theorem suffix_of_findFrom (search : findFrom pattern list = some found) : found <:+ list := by
  induction list with
  | nil =>
      rw [findFrom] at search
      split_ifs at search
      rw [← Option.some.inj search]
  | cons first rest inductionHypothesis =>
      rw [findFrom] at search
      split_ifs at search with stands
      · rw [← Option.some.inj search]
      · exact (inductionHypothesis search).trans (List.suffix_cons first rest)

theorem not_prefix_of_findFrom_none (search : findFrom pattern list = none) :
    ¬pattern <+: list := by
  intro stands
  rw [findFrom_of_stands stands] at search
  cases search

theorem findFrom_none_of_cons {first : α} (search : findFrom pattern (first :: list) = none) :
    findFrom pattern list = none := by
  rwa [findFrom_cons_of_absent (not_prefix_of_findFrom_none search)] at search

/-- A pattern found is found in a longer list, too. -/
theorem findFrom_append (search : findFrom pattern list = some found) :
    findFrom pattern (list ++ more) = some (found ++ more) := by
  induction list with
  | nil =>
      rw [findFrom] at search
      split_ifs at search with empty
      rw [← Option.some.inj search, List.nil_append]
      exact findFrom_of_stands (empty ▸ List.nil_prefix)
  | cons first rest inductionHypothesis =>
      by_cases stands : pattern <+: first :: rest
      · rw [findFrom_of_stands stands] at search
        rw [← Option.some.inj search]
        exact findFrom_of_stands (stands.trans (List.prefix_append _ _))
      · rw [findFrom_cons_of_absent stands] at search
        have fits : pattern.length ≤ (first :: rest).length := by
          have inside := (suffix_of_findFrom search).length_le
          have covers := (prefix_of_findFrom search).length_le
          simp only [List.length_cons]
          omega
        have stands' : ¬pattern <+: first :: (rest ++ more) :=
          fun longer => stands (prefix_of_prefix_append fits longer)
        rw [List.cons_append, findFrom_cons_of_absent stands', inductionHypothesis search]

/-- Of a list without the pattern only as much matters as is short of one. -/
theorem findFrom_append_none (kept : Nat) (enough : pattern.length ≤ kept + 1)
    (search : findFrom pattern list = none) :
    findFrom pattern (list ++ more) =
      findFrom pattern (list.drop (list.length - kept) ++ more) := by
  induction list with
  | nil => rw [List.drop_nil]
  | cons first rest inductionHypothesis =>
      by_cases short : rest.length < kept
      · have all : (first :: rest).length - kept = 0 := by
          simp only [List.length_cons]
          omega
        rw [all, List.drop_zero]
      · have fits : pattern.length ≤ (first :: rest).length := by
          simp only [List.length_cons]
          omega
        have stands : ¬pattern <+: first :: (rest ++ more) :=
          fun longer => not_prefix_of_findFrom_none search (prefix_of_prefix_append fits longer)
        have dropped : (first :: rest).length - kept = rest.length - kept + 1 := by
          simp only [List.length_cons]
          omega
        rw [List.cons_append, findFrom_cons_of_absent stands,
          inductionHypothesis (findFrom_none_of_cons search), dropped, List.drop_succ_cons]

end TriCoreDap
