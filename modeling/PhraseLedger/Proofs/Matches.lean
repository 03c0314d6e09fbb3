import PhraseLedger.Match

/-!
# Distinct matches and answer lines

The answer line of a query depends on the texts of its matches only, and of each text on
its first occurrence only.

Main results:

- Theorem {lit}`Match.map_term_distinct`: the texts of the distinct matches.
- Theorem {lit}`Match.resultLine_distinct`: the answer line by the texts of all matches.
-/

namespace PhraseLedger

namespace Match

theorem unseen_cons_of_not_mem {seen : List Text} {first : Match} (hfirst : first.term ∉ seen)
    (rest : List Match) :
    unseen seen (first :: rest) = first :: unseen (first.term :: seen) rest := by
  rw [unseen, if_neg hfirst]

theorem unseen_cons_of_mem {seen : List Text} {first : Match} (hfirst : first.term ∈ seen)
    (rest : List Match) : unseen seen (first :: rest) = unseen seen rest := by
  rw [unseen, if_pos hfirst]

/-- The texts of the matches with a new text are the first occurrences of the new
texts. -/
theorem map_term_unseen (seen : List Text) (found : List Match) :
    (unseen seen found).map term = ((found.map term).filter (· ∉ seen)).eraseDups := by
  induction found generalizing seen with
  | nil => rfl
  | cons first rest ih =>
      by_cases hfirst : first.term ∈ seen
      · rw [unseen_cons_of_mem hfirst, ih, List.map_cons,
          List.filter_cons_of_neg (by simpa using hfirst)]
      · rw [unseen_cons_of_not_mem hfirst, List.map_cons, ih, List.map_cons,
          List.filter_cons_of_pos (by simpa using hfirst), List.eraseDups_cons,
          List.filter_filter]
        congr 2
        apply List.filter_congr
        intro text _
        by_cases htext : text = first.term <;> simp [htext]

/-- The texts of the distinct matches are the first occurrences of the texts. -/
theorem map_term_distinct (found : List Match) :
    (distinct found).map term = (found.map term).eraseDups := by
  rw [distinct, map_term_unseen, List.filter_eq_self.mpr (by simp)]

/-- The answer line of a query names the first occurrence of each text. -/
theorem resultLine_distinct (found : List Match) :
    resultLine (distinct found) =
      match (found.map term).eraseDups with
      | [] => noMatch ++ [newline]
      | texts => [bar].intercalate texts ++ [newline] := by
  rw [← map_term_distinct]
  cases distinct found <;> rfl

end Match

end PhraseLedger
