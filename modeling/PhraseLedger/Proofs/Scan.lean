import PhraseLedger.Index.Scan
import PhraseLedger.Proofs.Membership
import Mathlib.Data.List.Infix

/-!
# Scans and runs of words

A scan reports the runs of consecutive words whose phrase is a member, ordered by their
first word and then by their last, although its walks end early and never build a
phrase.  A scan can be cut at any position that cuts no word.

Main results:

- Theorem {lit}`Index.matchesIn_eq_runs`: a scan against all runs of words.
- Theorem {lit}`Text.isSeam_of_drop`: no word is cut at the end of a text or in front of
  a space.
- Theorem {lit}`Index.matchesFrom_append_matchesIn`: the members that start in front of
  a seam and those of the text behind it are those of the whole text.
-/

namespace PhraseLedger

namespace Text

/-! ## Runs of words -/

/-- The runs of consecutive words that start with the first word, the shortest one
first. -/
def leadingRuns (words : List Word) : List (List Word) :=
  words.inits.tail

/-- All runs of consecutive words, by their first word and then by their last. -/
def runs (words : List Word) : List (List Word) :=
  words.tails.flatMap leadingRuns

@[simp] theorem leadingRuns_nil : leadingRuns [] = [] := rfl

/-- The runs that start with the first word are this word alone and this word in front
of a run that starts with the second. -/
theorem leadingRuns_cons (first : Word) (rest : List Word) :
    leadingRuns (first :: rest) = [first] :: (leadingRuns rest).map (first :: ·) := by
  rw [leadingRuns, List.inits_cons, List.tail_cons, leadingRuns]
  cases rest <;> simp

theorem ne_nil_of_mem_leadingRuns {words run : List Word}
    (hrun : run ∈ leadingRuns words) : run ≠ [] := by
  cases words with
  | nil => simp at hrun
  | cons first rest =>
      rw [leadingRuns_cons] at hrun
      rcases List.mem_cons.mp hrun with rfl | hrun
      · simp
      · rcases List.mem_map.mp hrun with ⟨shorter, -, rfl⟩
        simp

/-- A run that starts with the first word is a first part of the words. -/
theorem exists_append_of_mem_leadingRuns {words run : List Word}
    (hrun : run ∈ leadingRuns words) : ∃ back, words = run ++ back := by
  have hstarts : run <+: words :=
    (List.mem_inits run words).mp (List.mem_of_mem_tail hrun)
  rcases hstarts with ⟨back, hback⟩
  exact ⟨back, hback.symm⟩

/-- Every run stands between other words. -/
theorem exists_append_of_mem_runs {words run : List Word} (hrun : run ∈ runs words) :
    run ≠ [] ∧ ∃ front back, words = front ++ run ++ back := by
  rcases List.mem_flatMap.mp hrun with ⟨tail, htail, hleading⟩
  rcases (List.mem_tails tail words).mp htail with ⟨front, hfront⟩
  rcases exists_append_of_mem_leadingRuns hleading with ⟨back, hback⟩
  refine ⟨ne_nil_of_mem_leadingRuns hleading, front, back, ?_⟩
  rw [List.append_assoc, ← hback, hfront]

/-- The words of a run of a text make up a phrase. -/
theorem isPhrase_of_mem_runs {text : Text} {run : List Word} (hrun : run ∈ runs text.words) :
    IsPhrase (run.map Word.bytes) ∧ run.map Word.bytes ≠ [] := by
  rcases exists_append_of_mem_runs hrun with ⟨hnonempty, front, back, hwords⟩
  refine ⟨?_, by simpa using hnonempty⟩
  intro bytes hbytes
  apply isPhrase_phrase text
  rw [phrase, hwords, List.map_append, List.map_append]
  exact List.mem_append_left _ (List.mem_append_right _ hbytes)

/-- Words that are not alone are spelled with a space behind the first one. -/
theorem spell_cons (first : Text) {rest : List Text} (hrest : rest ≠ []) :
    spell (first :: rest) = first ++ ([space] ++ spell rest) := by
  rcases List.exists_cons_of_ne_nil hrest with ⟨second, rest, rfl⟩
  exact spell_cons_cons first second rest

/-- Another word in front of a run does not move its end. -/
theorem cover_cons_stop (first : Word) {run : List Word} (hrun : run ≠ []) :
    (cover (first :: run)).stop = (cover run).stop := by
  rcases List.exists_cons_of_ne_nil hrun with ⟨second, rest, rfl⟩
  rw [cover, cover, List.getLastD_cons]

/-! ## Ends of lists -/

@[simp] theorem tails_nil {α : Type} : tails ([] : List α) = [] := rfl

theorem headD_tails {α : Type} (items : List α) : (tails items).headD [] = items := by
  induction items with
  | nil => rfl
  | cons item items ih =>
      rw [tails, List.foldr_cons, ← tails, List.headD_cons, ih]

theorem tails_cons {α : Type} (item : α) (items : List α) :
    tails (item :: items) = (item :: items) :: tails items := by
  rw [tails, List.foldr_cons, ← tails, headD_tails]

theorem tails_append {α : Type} (front back : List α) :
    tails (front ++ back) = (tails front).map (· ++ back) ++ tails back := by
  induction front with
  | nil => rfl
  | cons item front ih =>
      rw [List.cons_append, tails_cons, tails_cons, ih]
      rfl

theorem tails_map {α β : Type} (change : α → β) (items : List α) :
    tails (items.map change) = (tails items).map (List.map change) := by
  induction items with
  | nil => rfl
  | cons item items ih =>
      rw [List.map_cons, tails_cons, tails_cons, ih]
      rfl

/-- No end is empty, and each starts with an item of the list. -/
theorem exists_cons_of_mem_tails {α : Type} {items tail : List α}
    (htail : tail ∈ tails items) : ∃ item ∈ items, ∃ rest, tail = item :: rest := by
  induction items with
  | nil => simp at htail
  | cons item items ih =>
      rw [tails_cons] at htail
      rcases List.mem_cons.mp htail with rfl | htail
      · exact ⟨item, List.mem_cons_self, items, rfl⟩
      · rcases ih htail with ⟨other, hother, rest, hrest⟩
        exact ⟨other, List.mem_cons_of_mem _ hother, rest, hrest⟩

/-- The empty end may be left out where it counts for nothing. -/
theorem flatMap_tails {α β : Type} (list : List α → List β) (hlist : list [] = [])
    (items : List α) : (tails items).flatMap list = items.tails.flatMap list := by
  induction items with
  | nil => simp [hlist]
  | cons item items ih =>
      rw [tails_cons, List.tails_cons, List.flatMap_cons, List.flatMap_cons, ih]

end Text

namespace Text

/-! ## Seams -/

/-- Whether no word is cut at a position of a text: its words are those in front of the
position and those behind it. -/
def IsSeam (text : Text) (cut : Nat) : Prop :=
  cut ≤ text.length ∧ text.words = words (text.take cut) ++ wordsFrom cut (text.drop cut)

/-- No word is cut at the end of a text or in front of a space. -/
theorem isSeam_of_drop {text : Text} {cut : Nat} (hcut : cut ≤ text.length)
    (hdrop : text.drop cut = [] ∨ ∃ rest, text.drop cut = space :: rest) :
    text.IsSeam cut := by
  refine ⟨hcut, ?_⟩
  have htext := List.take_append_drop cut text
  rcases hdrop with hdrop | ⟨rest, hdrop⟩
  · rw [hdrop, List.append_nil] at htext
    rw [hdrop, htext, wordsFrom_nil, List.append_nil]
  · have hlength : (text.take cut).length = cut := List.length_take_of_le hcut
    rw [hdrop] at htext
    rw [hdrop, wordsFrom_cons, joinByte_space, ← htext, words, wordsFrom_append_space,
      htext, hlength, Nat.zero_add, words]

end Text

/-! ## Walks -/

namespace Node

/-- Whether the words of a run, spelled from `node` on behind `gap`, lead to a member. -/
def spells (opIndex : Nat) (gap : Text) (node : Node) (run : List Word) : Bool :=
  (node.find? (gap ++ Text.spell (run.map Word.bytes))).any (·.visibleAt opIndex)

theorem spells_singleton (opIndex : Nat) (gap : Text) (node : Node) (word : Word) :
    node.spells opIndex gap [word] =
      (node.find? (gap ++ word.bytes)).any (·.visibleAt opIndex) := by
  simp [spells, Text.spell]

theorem spells_cons (opIndex : Nat) (gap : Text) (node : Node) (first : Word)
    {run : List Word} (hrun : run ≠ []) :
    node.spells opIndex gap (first :: run) =
      (node.find? (gap ++ first.bytes)).any (·.spells opIndex [Text.space] run) := by
  have hbytes : run.map Word.bytes ≠ [] := by
    simpa using hrun
  rw [spells, List.map_cons, Text.spell_cons _ hbytes, ← List.append_assoc, find?_append,
    Option.any_bind]
  rfl

/-- A walk reports the ends of those runs that start with the first word and whose
phrase is a member. -/
theorem walk_eq_runs (opIndex : Nat) (gap : Text) (node : Node) (words : List Word) :
    node.walk opIndex gap words =
      ((Text.leadingRuns words).filter (node.spells opIndex gap)).map
        fun run => (Text.cover run).stop := by
  induction words generalizing node gap with
  | nil => rfl
  | cons first rest ih =>
      have hlonger : (Text.leadingRuns rest).filter
          (fun run => node.spells opIndex gap (first :: run)) =
          (Text.leadingRuns rest).filter fun run =>
            (node.find? (gap ++ first.bytes)).any (·.spells opIndex [Text.space] run) := by
        apply List.filter_congr
        intro run hrun
        exact spells_cons opIndex gap node first (Text.ne_nil_of_mem_leadingRuns hrun)
      rw [walk, Text.leadingRuns_cons, List.filter_cons, List.filter_map,
        Function.comp_def, spells_singleton, hlonger]
      cases node.find? (gap ++ first.bytes) with
      | none =>
          -- No longer run has a node either, so the walk misses nothing by stopping here.
          simp
      | some next =>
          have hstops : ((Text.leadingRuns rest).filter (next.spells opIndex [Text.space])).map
              (fun run => (Text.cover (first :: run)).stop) =
              next.walk opIndex [Text.space] rest := by
            rw [ih]
            apply List.map_congr_left
            intro run hrun
            exact Text.cover_cons_stop first
              (Text.ne_nil_of_mem_leadingRuns (List.mem_filter.mp hrun).1)
          simp only [Option.any_some]
          split
          · rw [List.map_cons, List.map_map, Function.comp_def, hstops]
            rfl
          · rw [List.map_map, Function.comp_def, hstops]

/-- A walk along words that are moved reports moved ends. -/
theorem walk_shift (offset opIndex : Nat) (gap : Text) (node : Node)
    (words : List Word) :
    node.walk opIndex gap (words.map (Word.shift offset)) =
      (node.walk opIndex gap words).map (offset + ·) := by
  induction words generalizing node gap with
  | nil => rfl
  | cons first rest ih =>
      rw [List.map_cons, walk, walk, Word.shift_bytes]
      cases node.find? (gap ++ first.bytes) with
      | none => rfl
      | some next =>
          simp only [ih, Word.shift_stop]
          split <;> rfl

end Node

/-! ## Scans -/

namespace Index

/-- The stretches that a scan reports at a word cover the runs that start with this word
and whose phrase is a member. -/
theorem spansAt_eq_runs (index : Index) (opIndex : Nat) (words : List Word) :
    index.spansAt opIndex words =
      ((Text.leadingRuns words).filter fun run =>
        index.memberAt (run.map Word.bytes) opIndex).map Text.cover := by
  cases words with
  | nil => rfl
  | cons first rest =>
      have hmember : index.trie.root.spells opIndex [] =
          fun run => index.memberAt (run.map Word.bytes) opIndex := by
        funext run
        rw [Node.spells, List.nil_append, memberAt, Trie.memberAt, Trie.log?, Node.log?,
          Option.any_map]
        rfl
      rw [spansAt, Node.walk_eq_runs, List.map_map, hmember]
      apply List.map_congr_left
      intro run hrun
      have hleading := (List.mem_filter.mp hrun).1
      rw [Text.leadingRuns_cons] at hleading
      rcases List.mem_cons.mp hleading with rfl | hlonger
      · rfl
      · rcases List.mem_map.mp hlonger with ⟨shorter, -, rfl⟩
        rfl

/-- The stretches that a scan reports at a word that is moved are moved stretches. -/
theorem spansAt_shift (index : Index) (offset opIndex : Nat) (words : List Word) :
    index.spansAt opIndex (words.map (Word.shift offset)) =
      (index.spansAt opIndex words).map fun span =>
        ⟨offset + span.start, offset + span.stop⟩ := by
  cases words with
  | nil => rfl
  | cons first rest =>
      rw [List.map_cons, spansAt, spansAt, ← List.map_cons, Node.walk_shift, List.map_map,
        List.map_map]
      rfl

/-- A scan whose limit parts the words of a text reports the stretches that start at a
word in front of the limit. -/
theorem spansFrom_eq_flatMap (index : Index) (text : Text) (limit opIndex : Nat)
    {front back : List Word} (hwords : text.words = front ++ back)
    (hfront : ∀ word ∈ front, word.start < limit)
    (hback : ∀ word ∈ back, limit ≤ word.start) :
    index.spansFrom text limit opIndex =
      ((Text.tails front).map (· ++ back)).flatMap (index.spansAt opIndex) := by
  rw [spansFrom, hwords, Text.tails_append, List.takeWhile_append_of_pos]
  · suffices hnone : (Text.tails back).takeWhile _ = [] by
      rw [hnone, List.append_nil]
    cases back with
    | nil => rfl
    | cons word back =>
        have hlimit := hback word List.mem_cons_self
        rw [Text.tails_cons, List.takeWhile_cons_of_neg]
        simpa using hlimit
  · intro tail htail
    rcases List.mem_map.mp htail with ⟨shorter, hshorter, rfl⟩
    rcases Text.exists_cons_of_mem_tails hshorter with ⟨word, hword, rest, rfl⟩
    simpa using hfront word hword

/-- A scan without a limit reports the stretches that start at any word. -/
theorem spansFrom_length (index : Index) (text : Text) (opIndex : Nat) :
    index.spansFrom text text.length opIndex =
      (Text.tails text.words).flatMap (index.spansAt opIndex) := by
  have hwords : text.words = text.words ++ [] := (List.append_nil _).symm
  rw [spansFrom_eq_flatMap index text text.length opIndex hwords]
  · simp
  · intro word hword
    have := Text.start_lt_of_mem_wordsFrom hword
    omega
  · simp

/-- A scan finds the runs of words whose phrase is a member, by their first word and then
by their last. -/
theorem matchesIn_eq_runs (index : Index) (text : Text) (offset opIndex : Nat) :
    index.matchesIn text offset opIndex =
      ((Text.runs text.words).filter fun run =>
        index.memberAt (run.map Word.bytes) opIndex).map fun run =>
          text.matchAt offset (Text.cover run) := by
  rw [matchesIn, matchesFrom, spansFrom_length, Text.flatMap_tails _ rfl, Text.runs,
    List.filter_flatMap, List.map_flatMap, List.map_flatMap]
  apply List.flatMap_congr
  intro tail _
  rw [spansAt_eq_runs, List.map_map]
  rfl

/-- A scan depends only on which phrases are members as of its operation index. -/
theorem matchesIn_of_memberAt (index : Index) {opIndex : Nat} {member : List Text → Bool}
    (hmember : ∀ phrase, Text.IsPhrase phrase → phrase ≠ [] →
      index.memberAt phrase opIndex = member phrase) (text : Text) (offset : Nat) :
    index.matchesIn text offset opIndex =
      ((Text.runs text.words).filter fun run => member (run.map Word.bytes)).map
        fun run => text.matchAt offset (Text.cover run) := by
  rw [matchesIn_eq_runs]
  congr 1
  apply List.filter_congr
  intro run hrun
  rcases Text.isPhrase_of_mem_runs hrun with ⟨hphrase, hnonempty⟩
  exact hmember _ hphrase hnonempty

/-- A match of the text behind a position is a match of the whole text. -/
theorem matchAt_drop (text : Text) (offset cut : Nat) (span : Span) :
    Text.matchAt (text.drop cut) (offset + cut) span =
      text.matchAt offset ⟨cut + span.start, cut + span.stop⟩ := by
  have hlength : cut + span.stop - (cut + span.start) = span.stop - span.start := by omega
  rw [Text.matchAt, Text.matchAt, Text.slice, Text.slice, List.drop_drop, hlength,
    Nat.add_assoc]

/-- The members that start in front of a seam and those of the text behind it are the
members of the whole text. -/
theorem matchesFrom_append_matchesIn (index : Index) {text : Text} {cut : Nat}
    (hseam : text.IsSeam cut) (offset opIndex : Nat) :
    index.matchesFrom text cut offset opIndex ++
        index.matchesIn (text.drop cut) (offset + cut) opIndex =
      index.matchesIn text offset opIndex := by
  rcases hseam with ⟨hcut, hwords⟩
  have hlength : (text.take cut).length = cut := List.length_take_of_le hcut
  have hfront : ∀ word ∈ Text.words (text.take cut), word.start < cut := by
    intro word hword
    have := Text.start_lt_of_mem_wordsFrom hword
    omega
  have hback : ∀ word ∈ Text.wordsFrom cut (text.drop cut), cut ≤ word.start := by
    intro word hword
    exact Text.le_start_of_mem_wordsFrom hword
  have hbehind : (Text.tails (Text.wordsFrom cut (text.drop cut))).flatMap
      (index.spansAt opIndex) =
      ((Text.tails (Text.words (text.drop cut))).flatMap (index.spansAt opIndex)).map
        fun span => ⟨cut + span.start, cut + span.stop⟩ := by
    rw [Text.wordsFrom_eq_shift, Text.tails_map, List.flatMap_map, List.map_flatMap]
    apply List.flatMap_congr
    intro tail _
    exact spansAt_shift index cut opIndex tail
  rw [matchesIn, matchesFrom, matchesFrom, spansFrom_length, matchesIn, matchesFrom,
    spansFrom_length, spansFrom_eq_flatMap index text cut opIndex hwords hfront hback,
    hwords, Text.tails_append, List.flatMap_append, List.map_append, hbehind,
    List.map_map]
  congr 1
  apply List.map_congr_left
  intro span _
  exact matchAt_drop text offset cut span

end Index

end PhraseLedger
