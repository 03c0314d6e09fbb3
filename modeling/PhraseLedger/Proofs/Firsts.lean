import PhraseLedger.Proofs.Matches
import PhraseLedger.Proofs.Stretches
import Mathlib.Order.Bounds.Basic

/-!
# First occurrences

The distinct matches are those whose text no earlier match has.  They can be taken piece by piece:
the distinct matches of a list are those of its pieces' distinct matches, however it is cut.  In the
matches of a scan, which come by their positions, they are the earliest ones.

Main results:

- Theorem {lit}`Match.distinct_eq_filter_take`: a match is kept if no earlier one has its text.
- Theorem {lit}`Match.distinct_flatten`: the distinct matches of pieces.
- Theorem {lit}`Index.mem_matchesIn_iff`: a scan finds a member wherever it occurs.
- Theorem {lit}`Match.distinct_keeps_earliest`: all of this, and that a scan's distinct matches
  are the earliest ones.
-/

namespace PhraseLedger

namespace Match

/-! ## Matches whose text is new -/

/-- Of the distinct matches, those whose text has been seen before are left out. -/
theorem unseen_eq_filter (seen : List Text) (found : List Match) :
    unseen seen found = (distinct found).filter (·.term ∉ seen) := by
  induction found generalizing seen with
  | nil => rfl
  | cons first rest ih =>
      rw [distinct, unseen_cons_of_not_mem List.not_mem_nil, ih [first.term]]
      by_cases hfirst : first.term ∈ seen
      · rw [unseen_cons_of_mem hfirst, ih seen, List.filter_cons_of_neg (by simpa using hfirst),
          List.filter_filter]
        apply List.filter_congr
        intro m _
        by_cases hterm : m.term = first.term <;> simp [hterm, hfirst]
      · rw [unseen_cons_of_not_mem hfirst, ih (first.term :: seen),
          List.filter_cons_of_pos (by simpa using hfirst), List.filter_filter]
        congr 1
        apply List.filter_congr
        intro m _
        simp [Bool.and_comm]

/-- Behind the first match, its text is not new. -/
theorem distinct_cons (first : Match) (rest : List Match) :
    distinct (first :: rest) = first :: (distinct rest).filter (·.term ≠ first.term) := by
  rw [distinct, unseen_cons_of_not_mem List.not_mem_nil, unseen_eq_filter]
  simp

/-- Behind some matches, their texts are not new. -/
theorem distinct_append (front back : List Match) :
    distinct (front ++ back) =
      distinct front ++ (distinct back).filter (·.term ∉ front.map term) := by
  induction front with
  | nil => simp [distinct, unseen]
  | cons first rest ih =>
      rw [List.cons_append, distinct_cons, distinct_cons, ih, List.filter_append,
        List.filter_filter, List.cons_append]
      congr 2
      apply List.filter_congr
      intro m _
      simp

theorem distinct_singleton (m : Match) : distinct [m] = [m] :=
  unseen_cons_of_not_mem List.not_mem_nil []

/-! ## First occurrences -/

/-- A match is kept exactly if no earlier match has its text. -/
theorem distinct_eq_filter_take (found : List Match) :
    distinct found = (found.zipIdx.filter fun entry =>
      entry.1.term ∉ (found.take entry.2).map term).map Prod.fst := by
  induction found using List.reverseRecOn with
  | nil => rfl
  | append_singleton front m ih =>
      have hfront : (front.zipIdx.filter fun entry =>
            entry.1.term ∉ ((front ++ [m]).take entry.2).map term) =
          front.zipIdx.filter fun entry => entry.1.term ∉ (front.take entry.2).map term := by
        apply List.filter_congr
        intro entry hentry
        rw [List.take_append_of_le_length (Nat.le_of_lt (List.snd_lt_of_mem_zipIdx hentry))]
      have hlast : (([m].zipIdx front.length).filter fun entry =>
            entry.1.term ∉ ((front ++ [m]).take entry.2).map term).map Prod.fst =
          [m].filter (·.term ∉ front.map term) := by
        by_cases hterm : m.term ∈ front.map term <;> simp_all
      rw [List.zipIdx_append, Nat.zero_add, List.filter_append, List.map_append, hfront, hlast,
        ← ih, distinct_append, distinct_singleton]

theorem distinct_sublist (found : List Match) : (distinct found).Sublist found := by
  induction found with
  | nil => exact List.Sublist.refl _
  | cons first rest ih =>
      rw [distinct_cons]
      exact (List.filter_sublist.trans ih).cons_cons first

/-- No text is kept twice. -/
theorem nodup_map_term_distinct (found : List Match) : ((distinct found).map term).Nodup := by
  induction found with
  | nil => exact List.nodup_nil
  | cons first rest ih =>
      rw [distinct_cons, List.map_cons, List.nodup_cons]
      constructor
      · intro hfirst
        rcases List.mem_map.mp hfirst with ⟨m, hm, hterm⟩
        simpa [hterm] using List.of_mem_filter hm
      · exact ih.sublist (List.filter_sublist.map term)

/-- Every text is kept. -/
theorem mem_map_term_distinct (found : List Match) (text : Text) :
    text ∈ (distinct found).map term ↔ text ∈ found.map term := by
  rw [map_term_distinct, List.mem_eraseDups]

/-- Matches with different texts are all kept. -/
theorem distinct_of_nodup {found : List Match} (hfound : (found.map term).Nodup) :
    distinct found = found := by
  induction found with
  | nil => rfl
  | cons first rest ih =>
      rw [List.map_cons, List.nodup_cons] at hfound
      rw [distinct_cons, ih hfound.2, List.filter_eq_self.mpr]
      intro m hm
      have hterm : m.term ≠ first.term :=
        fun hsame => hfound.1 (hsame ▸ List.mem_map_of_mem hm)
      simpa using hterm

theorem distinct_distinct (found : List Match) : distinct (distinct found) = distinct found :=
  distinct_of_nodup (nodup_map_term_distinct found)

/-! ## Pieces -/

/-- The distinct matches of two lists are those of the lists' distinct matches. -/
theorem distinct_append_distinct (front back : List Match) :
    distinct (distinct front ++ distinct back) = distinct (front ++ back) := by
  rw [distinct_append, distinct_append, distinct_distinct, distinct_distinct]
  congr 1
  apply List.filter_congr
  intro m _
  simp only [mem_map_term_distinct]

/-- However a list is cut into pieces, its distinct matches are those of the pieces' distinct
matches. -/
theorem distinct_flatten (pieces : List (List Match)) :
    distinct (pieces.map distinct).flatten = distinct pieces.flatten := by
  induction pieces with
  | nil => rfl
  | cons piece pieces ih =>
      rw [List.map_cons, List.flatten_cons, List.flatten_cons, ← distinct_append_distinct,
        distinct_distinct, ih, distinct_append_distinct]

/-! ## Matches by position -/

/-- Of matches that come by their positions, the one that is kept for a text is the earliest. -/
theorem isLeast_position {found : List Match}
    (hfound : found.Pairwise fun first second => first.position ≤ second.position) {m : Match}
    (hm : m ∈ distinct found) : IsLeast {position | ⟨m.term, position⟩ ∈ found} m.position := by
  refine ⟨(distinct_sublist found).subset hm, ?_⟩
  intro position hposition
  induction found with
  | nil => cases hposition
  | cons first rest ih =>
      rcases List.pairwise_cons.mp hfound with ⟨hbehind, hrest⟩
      rw [distinct_cons, List.mem_cons] at hm
      rcases hm with rfl | hlater
      · rcases List.mem_cons.mp hposition with hfirst | hother
        · rw [← hfirst]
        · exact hbehind _ hother
      · rcases List.mem_filter.mp hlater with ⟨hkept, hnew⟩
        rcases List.mem_cons.mp hposition with rfl | hother
        · simp at hnew
        · exact ih hrest hkept hother

end Match

namespace Text

/-! ## Occurrences -/

/-- Whether `piece` stands in a text from the start of a word at `start` to the end of the same or
a later word. -/
def OccursAt (text piece : Text) (start : Nat) : Prop :=
  ∃ first last, text.IsWord first ∧ text.IsWord last ∧ first.start = start ∧
    start < last.stop ∧ text.slice start last.stop = piece

/-- A stretch from the start of a word to a later end of a word is listed. -/
theorem mem_stretches {spans : List Span}
    (hspans : spans.Pairwise fun first second => first.stop < second.start)
    {first last : Span} (hfirst : first ∈ spans) (hlast : last ∈ spans)
    (hstop : first.start < last.stop) : ⟨first.start, last.stop⟩ ∈ stretches spans := by
  induction spans with
  | nil => cases hfirst
  | cons head rest ih =>
      rcases List.pairwise_cons.mp hspans with ⟨hbehind, hrest⟩
      rw [stretches, List.mem_append]
      rcases List.mem_cons.mp hfirst with rfl | hfirstRest
      · exact Or.inl (List.mem_map.mpr ⟨last, hlast, rfl⟩)
      · rcases List.mem_cons.mp hlast with rfl | hlastRest
        · have hbefore := hbehind first hfirstRest
          omega
        · exact Or.inr (ih hrest hfirstRest hlastRest)

/-- The stretches of a text lie between the start of a word and a later end of a word. -/
theorem mem_stretches_wordSpans_iff (text : Text) (span : Span) :
    span ∈ stretches text.wordSpans ↔
      ∃ first last, text.IsWord first ∧ text.IsWord last ∧ first.start = span.start ∧
        last.stop = span.stop ∧ span.start < span.stop := by
  constructor
  · intro hspan
    rcases exists_words_of_mem_stretches
        (fun word hword => ((mem_wordSpans_iff text word).mp hword).nonempty)
        (pairwise_wordSpans text) hspan with ⟨first, hfirst, last, hlast, hends⟩
    exact ⟨first, last, (mem_wordSpans_iff text first).mp hfirst,
      (mem_wordSpans_iff text last).mp hlast, hends⟩
  · rintro ⟨first, last, hfirst, hlast, hstart, hstop, hnonempty⟩
    rw [← hstart, ← hstop] at hnonempty
    have hlisted := mem_stretches (pairwise_wordSpans text)
      ((mem_wordSpans_iff text first).mpr hfirst) ((mem_wordSpans_iff text last).mpr hlast)
      hnonempty
    rwa [hstart, hstop] at hlisted

end Text

namespace Index

/-! ## Matches of a scan -/

/-- A scan finds the members of the index, each wherever it occurs. -/
theorem mem_matchesIn_iff (index : Index) (text : Text) (offset opIndex : Nat) (m : Match) :
    m ∈ index.matchesIn text offset opIndex ↔
      index.contains m.term opIndex = true ∧
        ∃ start, text.OccursAt m.term start ∧ m.position = offset + start := by
  rw [matchesIn, matchesFrom, spansFrom_eq_stretches, List.mem_map]
  constructor
  · rintro ⟨span, hspan, rfl⟩
    rcases List.mem_filter.mp hspan with ⟨hlisted, hmember⟩
    rcases (Text.mem_stretches_wordSpans_iff text span).mp hlisted with
      ⟨first, last, hfirst, hlast, hstart, hstop, hnonempty⟩
    refine ⟨(of_decide_eq_true hmember).2, span.start, ?_, rfl⟩
    exact ⟨first, last, hfirst, hlast, hstart, hstop ▸ hnonempty, hstop ▸ rfl⟩
  · rintro ⟨hmember, start, ⟨first, last, hfirst, hlast, rfl, hstop, hterm⟩, hposition⟩
    have hlisted : ⟨first.start, last.stop⟩ ∈ Text.stretches text.wordSpans :=
      (Text.mem_stretches_wordSpans_iff text _).mpr
        ⟨first, last, hfirst, hlast, rfl, rfl, hstop⟩
    have hinside : first.start < text.length := Nat.lt_of_lt_of_le hstop hlast.inside
    refine ⟨⟨first.start, last.stop⟩, List.mem_filter.mpr ⟨hlisted, ?_⟩, ?_⟩
    · exact decide_eq_true ⟨hinside, hterm ▸ hmember⟩
    · cases m
      exact congrArg₂ Match.mk hterm hposition.symm

/-- A scan finds its matches by their positions. -/
theorem pairwise_position_matchesIn (index : Index) (text : Text) (offset opIndex : Nat) :
    (index.matchesIn text offset opIndex).Pairwise
      fun first second => first.position ≤ second.position := by
  rw [matchesIn, matchesFrom, spansFrom_eq_stretches, List.pairwise_map]
  refine ((Text.pairwise_stretches_wordSpans text).filter _).imp ?_
  intro first second hprecedes
  apply Nat.add_le_add_left
  rcases hprecedes with hlater | ⟨hsame, -⟩
  · exact Nat.le_of_lt hlater
  · exact Nat.le_of_eq hsame

end Index

namespace Match

/-- The match that a scan keeps for a text is where the text occurs first. -/
theorem isLeast_occursAt (index : Index) (text : Text) (offset opIndex : Nat) {m : Match}
    (hm : m ∈ distinct (index.matchesIn text offset opIndex)) :
    ∃ start, m.position = offset + start ∧ IsLeast {start | text.OccursAt m.term start} start := by
  rcases isLeast_position (index.pairwise_position_matchesIn text offset opIndex) hm with
    ⟨hfound, hleast⟩
  rcases (index.mem_matchesIn_iff text offset opIndex m).mp hfound with
    ⟨hmember, start, hstart, hposition⟩
  refine ⟨start, hposition, hstart, ?_⟩
  intro other hother
  have hagain : ⟨m.term, offset + other⟩ ∈ index.matchesIn text offset opIndex :=
    (index.mem_matchesIn_iff text offset opIndex _).mpr ⟨hmember, other, hother, rfl⟩
  have hle := hleast hagain
  omega

/-- A match is kept exactly if no earlier match has its text.  So no text is kept twice, every text
is kept, and the order stays; distinct matches stay as they are, and the distinct matches of two
lists are those of the lists' distinct matches.  The match of a scan that is kept for a text is the
earliest one, and it stands where the text first occurs between the start of a word and the end of
the same or a later word. -/
theorem distinct_keeps_earliest (found later : List Match) (index : Index) (text : Text)
    (offset opIndex : Nat) :
    distinct found = (found.zipIdx.filter fun entry =>
      entry.1.term ∉ (found.take entry.2).map term).map Prod.fst ∧
    (distinct found).Sublist found ∧
    ((distinct found).map term).Nodup ∧
    (∀ piece, piece ∈ (distinct found).map term ↔ piece ∈ found.map term) ∧
    distinct (distinct found) = distinct found ∧
    distinct (found ++ later) = distinct (distinct found ++ distinct later) ∧
    ∀ m ∈ distinct (index.matchesIn text offset opIndex),
      IsLeast {position | ⟨m.term, position⟩ ∈ index.matchesIn text offset opIndex} m.position ∧
      ∃ start, m.position = offset + start ∧
        IsLeast {start | text.OccursAt m.term start} start := by
  refine ⟨distinct_eq_filter_take found, distinct_sublist found, nodup_map_term_distinct found,
    mem_map_term_distinct found, distinct_distinct found,
    (distinct_append_distinct found later).symm, ?_⟩
  intro m hm
  exact ⟨isLeast_position (index.pairwise_position_matchesIn text offset opIndex) hm,
    isLeast_occursAt index text offset opIndex hm⟩

/-- In `b a b a`, of which both words are members, the `a` at 2 is kept. -/
theorem distinct_keeps_earliest_second_word :
    let index := (Index.empty.add [97] 0).add [98] 0
    let text : Text := [98, 32, 97, 32, 98, 32, 97]
    let found := index.matchesIn text 0 1
    found = [⟨[98], 0⟩, ⟨[97], 2⟩, ⟨[98], 4⟩, ⟨[97], 6⟩] ∧
      (⟨[97], 2⟩ : Match) ∈ distinct found ∧
      IsLeast {position | ⟨[97], position⟩ ∈ found} 2 := by
  intro index text found
  have hm : (⟨[97], 2⟩ : Match) ∈ distinct found := by decide
  obtain ⟨-, -, -, -, -, -, hearliest⟩ := distinct_keeps_earliest found [] index text 0 1
  exact ⟨by decide, hm, (hearliest _ hm).1⟩

end Match

end PhraseLedger
