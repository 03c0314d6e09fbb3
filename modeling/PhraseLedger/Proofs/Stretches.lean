import PhraseLedger.Proofs.Scan
import Mathlib.Data.List.Nodup

/-!
# Scans and stretches of a text

A scan can be told without words and walks: the words are the maximal runs of bytes other
than the space, and of all stretches from the start of a word to the end of the same or a
later word, a scan reports those that name a member.

Main results:

- Theorem {lit}`Text.mem_wordSpans_iff`: the words of a text are its maximal runs of bytes
  other than the space.
- Theorem {lit}`Text.map_cover_runs`: the stretches from a word to the same or a later one.
- Theorem {lit}`Index.matchesFrom_eq_runs`: a scan with a limit against all runs of words.
- Theorem {lit}`Index.matchesFrom_enumerates`: a scan against all stretches.
-/

namespace PhraseLedger

namespace Word

/-- Where a word stands. -/
def span (word : Word) : Span :=
  ⟨word.start, word.stop⟩

@[simp] theorem span_start (word : Word) : word.span.start = word.start := rfl

@[simp] theorem span_stop (word : Word) : word.span.stop = word.stop := rfl

end Word

namespace Span

/-- A stretch that is moved by `offset` bytes. -/
def shift (offset : Nat) (span : Span) : Span :=
  ⟨offset + span.start, offset + span.stop⟩

/-- Whether a stretch starts before another one, or where it starts but ends before it. -/
def Precedes (first second : Span) : Prop :=
  first.start < second.start ∨ first.start = second.start ∧ first.stop < second.stop

end Span

namespace Text

/-! ## Words as maximal runs -/

/-- Whether a stretch of a text is a maximal run of bytes other than the space. -/
structure IsWord (text : Text) (span : Span) : Prop where
  nonempty : span.start < span.stop
  inside : span.stop ≤ text.length
  free : ∀ pos, span.start ≤ pos → pos < span.stop → text[pos]? ≠ some space
  before : span.start = 0 ∨ text[span.start - 1]? = some space
  behind : span.stop = text.length ∨ text[span.stop]? = some space

/-- Where the words of a text stand, in order. -/
def wordSpans (text : Text) : List Span :=
  text.words.map Word.span

theorem getElem?_ne_space {piece : Text} (hfree : space ∉ piece) (pos : Nat) :
    piece[pos]? ≠ some space := by
  intro hpos
  exact hfree (List.mem_of_getElem? hpos)

/-- A piece without spaces is a maximal run, unless it is empty. -/
theorem isWord_piece {piece : Text} (hfree : space ∉ piece) (span : Span) :
    piece.IsWord span ↔ piece ≠ [] ∧ span = ⟨0, piece.length⟩ := by
  constructor
  · intro hword
    have hstart : span.start = 0 :=
      hword.before.resolve_right (getElem?_ne_space hfree _)
    have hstop : span.stop = piece.length :=
      hword.behind.resolve_right (getElem?_ne_space hfree _)
    have hnonempty := hword.nonempty
    constructor
    · rintro rfl
      simp only [List.length_nil] at hstop
      omega
    · rw [← hstart, ← hstop]
  · rintro ⟨hpiece, rfl⟩
    exact ⟨List.length_pos_iff.mpr hpiece, Nat.le_refl _,
      fun pos _ _ => getElem?_ne_space hfree pos, Or.inl rfl, Or.inl rfl⟩

/-- In a text that starts with a piece and a space, the bytes behind the space. -/
theorem getElem?_behind_space (piece rest : Text) (pos : Nat) :
    (piece ++ space :: rest)[piece.length + 1 + pos]? = rest[pos]? := by
  rw [List.getElem?_append_right (by omega),
    show piece.length + 1 + pos - piece.length = pos + 1 by omega, List.getElem?_cons_succ]

theorem getElem?_at_space (piece rest : Text) :
    (piece ++ space :: rest)[piece.length]? = some space := by
  rw [List.getElem?_append_right (Nat.le_refl _), Nat.sub_self, List.getElem?_cons_zero]

/-- A maximal run of a text that starts with a piece and a space ends in front of the
space exactly if it is a maximal run of the piece. -/
theorem isWord_append_front (piece rest : Text) {span : Span}
    (hspan : span.stop ≤ piece.length) :
    (piece ++ space :: rest).IsWord span ↔ piece.IsWord span := by
  have hbyte : ∀ pos, pos < piece.length → (piece ++ space :: rest)[pos]? = piece[pos]? :=
    fun pos hpos => List.getElem?_append_left hpos
  constructor
  · intro hword
    have hnonempty := hword.nonempty
    refine ⟨hnonempty, hspan, ?_, ?_, ?_⟩
    · intro pos hstart hstop
      rw [← hbyte pos (by omega)]
      exact hword.free pos hstart hstop
    · rw [← hbyte (span.start - 1) (by omega)]
      exact hword.before
    · rcases Nat.eq_or_lt_of_le hspan with hend | hinner
      · exact Or.inl hend
      · rw [← hbyte span.stop hinner]
        refine Or.inr (hword.behind.resolve_left ?_)
        rw [List.length_append]
        omega
  · intro hword
    have hnonempty := hword.nonempty
    refine ⟨hnonempty, ?_, ?_, ?_, ?_⟩
    · rw [List.length_append]
      omega
    · intro pos hstart hstop
      rw [hbyte pos (by omega)]
      exact hword.free pos hstart hstop
    · rw [hbyte (span.start - 1) (by omega)]
      exact hword.before
    · right
      rcases Nat.eq_or_lt_of_le hspan with hend | hinner
      · rw [hend, getElem?_at_space]
      · rw [hbyte span.stop hinner]
        exact hword.behind.resolve_left (by omega)

/-- A maximal run of the text behind a space is a maximal run of the whole text. -/
theorem isWord_append_behind (piece rest : Text) (span : Span) :
    (piece ++ space :: rest).IsWord (span.shift (piece.length + 1)) ↔ rest.IsWord span := by
  have hbyte := getElem?_behind_space piece rest
  have hlength : (piece ++ space :: rest).length = piece.length + 1 + rest.length := by
    rw [List.length_append, List.length_cons]
    omega
  have hbefore : (piece ++ space :: rest)[piece.length + 1 + span.start - 1]? = some space ↔
      span.start = 0 ∨ rest[span.start - 1]? = some space := by
    rcases Nat.eq_zero_or_pos span.start with hzero | hpos
    · rw [hzero, Nat.add_zero, Nat.add_sub_cancel, getElem?_at_space]
      simp
    · rw [Nat.add_sub_assoc hpos, hbyte]
      simp [Nat.ne_of_gt hpos]
  constructor
  · rintro ⟨hnonempty, hinside, hfree, hleft, hright⟩
    simp only [Span.shift] at hnonempty hinside hfree hleft hright
    refine ⟨by omega, by omega, ?_, ?_, ?_⟩
    · intro pos hstart hstop
      rw [← hbyte]
      exact hfree _ (by omega) (by omega)
    · exact hbefore.mp (hleft.resolve_left (by omega))
    · rw [← hbyte]
      exact hright.imp_left (by omega)
  · rintro ⟨hnonempty, hinside, hfree, hleft, hright⟩
    refine ⟨?_, ?_, ?_, ?_, ?_⟩ <;> simp only [Span.shift]
    · omega
    · omega
    · intro pos hstart hstop
      rw [show pos = piece.length + 1 + (pos - (piece.length + 1)) by omega, hbyte]
      exact hfree _ (by omega) (by omega)
    · exact Or.inr (hbefore.mpr hleft)
    · rw [hbyte]
      exact hright.imp_left (by omega)

/-- A maximal run lies on one side of a space. -/
theorem isWord_append_space (piece rest : Text) (span : Span) :
    (piece ++ space :: rest).IsWord span ↔
      piece.IsWord span ∨
        ∃ inner, rest.IsWord inner ∧ inner.shift (piece.length + 1) = span := by
  constructor
  · intro hword
    rcases Nat.lt_or_ge piece.length span.stop with hbehind | hfront
    · right
      have hstart : piece.length + 1 ≤ span.start := by
        by_contra hcovers
        exact hword.free piece.length (by omega) hbehind (getElem?_at_space piece rest)
      have hinner : Span.shift (piece.length + 1)
          ⟨span.start - (piece.length + 1), span.stop - (piece.length + 1)⟩ = span := by
        rw [Span.shift, Nat.add_sub_cancel' hstart, Nat.add_sub_cancel' hbehind]
      rw [← hinner, isWord_append_behind] at hword
      exact ⟨_, hword, hinner⟩
    · exact Or.inl ((isWord_append_front piece rest hfront).mp hword)
  · rintro (hword | ⟨inner, hword, rfl⟩)
    · exact (isWord_append_front piece rest hword.inside).mpr hword
    · exact (isWord_append_behind piece rest inner).mpr hword

theorem span_shift (offset : Nat) (word : Word) :
    (word.shift offset).span = word.span.shift offset := by
  rw [Word.span, Word.shift_start, Word.shift_stop, Span.shift, Word.span_start,
    Word.span_stop]

theorem mem_wordSpans_piece {piece : Text} (hfree : space ∉ piece) (span : Span) :
    span ∈ piece.wordSpans ↔ piece.IsWord span := by
  rw [isWord_piece hfree, wordSpans, words, wordsFrom_piece 0 hfree]
  by_cases hempty : piece = [] <;> simp [hempty, Word.span, Word.stop]

/-- The words of a text stand at its maximal runs of bytes other than the space. -/
theorem mem_wordSpans_iff (text : Text) (span : Span) :
    span ∈ text.wordSpans ↔ text.IsWord span := by
  induction text using pieceInduction space generalizing span with
  | last piece hfree => exact mem_wordSpans_piece hfree span
  | next piece rest hfree ih =>
      have hspans : (piece ++ space :: rest).wordSpans =
          piece.wordSpans ++ rest.wordSpans.map (Span.shift (piece.length + 1)) := by
        have hshift : Word.span ∘ Word.shift (piece.length + 1) =
            Span.shift (piece.length + 1) ∘ Word.span :=
          funext (span_shift _)
        rw [wordSpans, words, wordsFrom_append_space, Nat.zero_add,
          wordsFrom_eq_shift (piece.length + 1), List.map_append, List.map_map, hshift,
          ← List.map_map]
        rfl
      rw [isWord_append_space, hspans, List.mem_append, List.mem_map,
        mem_wordSpans_piece hfree]
      simp only [ih]

/-- Each word of a text ends before the next one starts. -/
theorem pairwise_wordsFrom (pos : Nat) (text : Text) :
    (wordsFrom pos text).Pairwise fun first second => first.stop < second.start := by
  induction text using pieceInduction space generalizing pos with
  | last piece hfree =>
      rw [wordsFrom_piece pos hfree]
      split <;> simp
  | next piece rest hfree ih =>
      rw [wordsFrom_append_space, List.pairwise_append]
      refine ⟨?_, ih _, ?_⟩
      · rw [wordsFrom_piece pos hfree]
        split <;> simp
      · intro first hfirst second hsecond
        have hstop := stop_le_of_mem_wordsFrom hfirst
        have hstart := le_start_of_mem_wordsFrom hsecond
        omega

theorem pairwise_wordSpans (text : Text) :
    text.wordSpans.Pairwise fun first second => first.stop < second.start := by
  rw [wordSpans, List.pairwise_map]
  exact pairwise_wordsFrom 0 text

/-! ## Stretches -/

/-- The stretches from the start of a word to the end of the same or a later word, by
their first word and then by their last. -/
def stretches : List Span → List Span
  | [] => []
  | first :: rest =>
    (first :: rest).map (fun last => ⟨first.start, last.stop⟩) ++ stretches rest

/-- The runs that start with the first word cover the stretches that start at its start. -/
theorem map_cover_leadingRuns (first : Word) (rest : List Word) :
    (leadingRuns (first :: rest)).map cover =
      (first :: rest).map fun last => ⟨first.start, last.stop⟩ := by
  induction rest generalizing first with
  | nil => rfl
  | cons second rest ih =>
      have hlonger : (leadingRuns (second :: rest)).map (fun run => cover (first :: run)) =
          ((leadingRuns (second :: rest)).map cover).map
            fun span => ⟨first.start, span.stop⟩ := by
        rw [List.map_map]
        apply List.map_congr_left
        intro run hrun
        rw [Function.comp_apply, ← cover_cons_stop first (ne_nil_of_mem_leadingRuns hrun)]
        rfl
      rw [leadingRuns_cons, List.map_cons, List.map_map, Function.comp_def, hlonger, ih,
        List.map_map]
      rfl

/-- The runs of words cover the stretches from a word to the same or a later one. -/
theorem map_cover_runs (words : List Word) :
    (runs words).map cover = stretches (words.map Word.span) := by
  induction words with
  | nil => rfl
  | cons first rest ih =>
      have hruns : runs (first :: rest) = leadingRuns (first :: rest) ++ runs rest := by
        rw [runs, List.tails_cons, List.flatMap_cons, runs]
      rw [hruns, List.map_append, ih, map_cover_leadingRuns, List.map_cons (f := Word.span),
        stretches, ← List.map_cons, List.map_map]
      rfl

/-- A stretch starts with a word and ends with the same or a later one. -/
theorem exists_words_of_mem_stretches {spans : List Span} {span : Span}
    (hnonempty : ∀ word ∈ spans, word.start < word.stop)
    (hspans : spans.Pairwise fun first second => first.stop < second.start)
    (hspan : span ∈ stretches spans) :
    ∃ first ∈ spans, ∃ last ∈ spans,
      first.start = span.start ∧ last.stop = span.stop ∧ span.start < span.stop := by
  induction spans with
  | nil => simp [stretches] at hspan
  | cons first rest ih =>
      have hfirst := hnonempty first List.mem_cons_self
      rcases List.pairwise_cons.mp hspans with ⟨hbehind, hrest⟩
      rw [stretches, List.mem_append] at hspan
      rcases hspan with hleading | hlater
      · rcases List.mem_map.mp hleading with ⟨last, hlast, rfl⟩
        refine ⟨first, List.mem_cons_self, last, hlast, rfl, rfl, ?_⟩
        rcases List.mem_cons.mp hlast with rfl | hmem
        · exact hfirst
        · have hstart := hbehind last hmem
          have hstop := hnonempty last hlast
          simp only
          omega
      · have hwords : ∀ word ∈ rest, word.start < word.stop :=
          fun word hword => hnonempty word (List.mem_cons_of_mem _ hword)
        rcases ih hwords hrest hlater with ⟨start, hstart, last, hlast, hends⟩
        exact ⟨start, List.mem_cons_of_mem _ hstart, last, List.mem_cons_of_mem _ hlast,
          hends⟩

/-- The stretches between words that stand one behind the other come in order. -/
theorem pairwise_stretches {spans : List Span}
    (hnonempty : ∀ word ∈ spans, word.start < word.stop)
    (hspans : spans.Pairwise fun first second => first.stop < second.start) :
    (stretches spans).Pairwise Span.Precedes := by
  induction spans with
  | nil => exact List.Pairwise.nil
  | cons first rest ih =>
      have hwords : ∀ word ∈ rest, word.start < word.stop :=
        fun word hword => hnonempty word (List.mem_cons_of_mem _ hword)
      have hfirst := hnonempty first List.mem_cons_self
      rcases List.pairwise_cons.mp hspans with ⟨hbehind, hrest⟩
      rw [stretches, List.pairwise_append]
      refine ⟨?_, ih hwords hrest, ?_⟩
      · -- Stretches with the same first word are ordered by the ends of their last words.
        rw [List.pairwise_map]
        refine hspans.imp_of_mem ?_
        intro second third _ hthird hstop
        have hlonger := hnonempty third hthird
        exact Or.inr ⟨rfl, by simp only; omega⟩
      · intro second hsecond third hthird
        rcases List.mem_map.mp hsecond with ⟨last, -, rfl⟩
        rcases exists_words_of_mem_stretches hwords hrest hthird with
          ⟨word, hword, -, -, hstart, -⟩
        have hlater := hbehind word hword
        exact Or.inl (by simp only; omega)

/-- The stretches of a text come in order. -/
theorem pairwise_stretches_wordSpans (text : Text) :
    (stretches text.wordSpans).Pairwise Span.Precedes := by
  apply pairwise_stretches
  · intro word hword
    exact ((mem_wordSpans_iff text word).mp hword).nonempty
  · exact pairwise_wordSpans text

/-- A stretch of a text is not empty and lies within the text. -/
theorem bounds_of_mem_stretches {text : Text} {span : Span}
    (hspan : span ∈ stretches text.wordSpans) :
    span.start < span.stop ∧ span.stop ≤ text.length := by
  have hwords : ∀ word ∈ text.wordSpans, text.IsWord word :=
    fun word hword => (mem_wordSpans_iff text word).mp hword
  rcases exists_words_of_mem_stretches (fun word hword => (hwords word hword).nonempty)
    (pairwise_wordSpans text) hspan with ⟨-, -, last, hlast, -, hstop, hnonempty⟩
  exact ⟨hnonempty, hstop ▸ (hwords last hlast).inside⟩

end Text

namespace Index

/-! ## Scans -/

/-- The stretches that a scan reports at a word start where the word starts. -/
theorem start_of_mem_spansAt {index : Index} {opIndex : Nat} {word : Word} {rest : List Word}
    {span : Span} (hspan : span ∈ index.spansAt opIndex (word :: rest)) :
    span.start = word.start := by
  rcases List.mem_map.mp hspan with ⟨stop, -, rfl⟩
  rfl

/-- A scan that stops at the first word that does not start before the limit misses no
later word that does. -/
theorem flatMap_takeWhile_tails (index : Index) (opIndex limit : Nat) {words : List Word}
    (hwords : words.Pairwise fun first second => first.stop < second.start)
    {starting : List Word → Bool}
    (hstarting : ∀ word rest, starting (word :: rest) = decide (word.start < limit)) :
    ((Text.tails words).takeWhile starting).flatMap (index.spansAt opIndex) =
      ((Text.tails words).flatMap (index.spansAt opIndex)).filter (·.start < limit) := by
  induction words with
  | nil => rfl
  | cons first rest ih =>
      rcases List.pairwise_cons.mp hwords with ⟨hbehind, hrest⟩
      by_cases hfirst : first.start < limit
      · have hall : (index.spansAt opIndex (first :: rest)).filter (·.start < limit) =
            index.spansAt opIndex (first :: rest) := by
          rw [List.filter_eq_self]
          intro span hspan
          rw [start_of_mem_spansAt hspan]
          exact decide_eq_true hfirst
        rw [Text.tails_cons, List.takeWhile_cons_of_pos (by simpa [hstarting] using hfirst),
          List.flatMap_cons, List.flatMap_cons, List.filter_append, hall, ih hrest]
      · have hnone : ((Text.tails (first :: rest)).flatMap (index.spansAt opIndex)).filter
            (·.start < limit) = [] := by
          rw [List.filter_eq_nil_iff]
          intro span hspan
          rcases List.mem_flatMap.mp hspan with ⟨tail, htail, hat⟩
          rcases Text.exists_cons_of_mem_tails htail with ⟨word, hword, later, rfl⟩
          rw [start_of_mem_spansAt hat, decide_eq_true_iff]
          rcases List.mem_cons.mp hword with rfl | hlater
          · exact hfirst
          · have hstop := hbehind word hlater
            rw [Word.stop] at hstop
            omega
        rw [hnone, Text.tails_cons, List.takeWhile_cons_of_neg (by simpa [hstarting] using hfirst),
          List.flatMap_nil]

/-- A scan with a limit finds the runs of words that start in front of the limit and whose
phrase is a member, by their first word and then by their last. -/
theorem spansFrom_eq_runs (index : Index) (text : Text) (limit opIndex : Nat) :
    index.spansFrom text limit opIndex =
      (((Text.runs text.words).filter fun run =>
        index.memberAt (run.map Word.bytes) opIndex).map Text.cover).filter
          (·.start < limit) := by
  have hwords : text.words.Pairwise fun first second => first.stop < second.start :=
    Text.pairwise_wordsFrom 0 text
  rw [spansFrom, flatMap_takeWhile_tails index opIndex limit hwords fun _ _ => rfl,
    Text.flatMap_tails _ rfl]
  congr 1
  rw [Text.runs, List.filter_flatMap, List.map_flatMap]
  apply List.flatMap_congr
  intro tail _
  exact spansAt_eq_runs index opIndex tail

/-- The stretch that a run of words covers names a member exactly if the phrase of the run
is one. -/
theorem contains_slice_cover (index : Index) (opIndex : Nat) {text : Text} {run : List Word}
    (hrun : run ∈ Text.runs text.words) :
    index.contains (text.slice (Text.cover run).start (Text.cover run).stop) opIndex =
      index.memberAt (run.map Word.bytes) opIndex := by
  rcases Text.exists_append_of_mem_runs hrun with ⟨hnonempty, front, back, hwords⟩
  rcases List.exists_cons_of_ne_nil hnonempty with ⟨first, rest, rfl⟩
  have hphrase := Text.phrase_slice_cover hwords
  have hword : (text.slice (Text.cover (first :: rest)).start
      (Text.cover (first :: rest)).stop).hasWord = true := by
    rw [Text.hasWord_iff, hphrase]
    simp
  rw [contains_eq, hword, hphrase, Bool.true_and]

/-- A scan reports the stretches from a word to the same or a later one that start in front
of the limit and name a member. -/
theorem spansFrom_eq_stretches (index : Index) (text : Text) (limit opIndex : Nat) :
    index.spansFrom text limit opIndex =
      (Text.stretches text.wordSpans).filter fun span =>
        span.start < limit ∧ index.contains (text.slice span.start span.stop) opIndex := by
  have hmembers : (Text.runs text.words).filter (fun run =>
      index.memberAt (run.map Word.bytes) opIndex) =
      (Text.runs text.words).filter fun run =>
        index.contains (text.slice (Text.cover run).start (Text.cover run).stop) opIndex := by
    apply List.filter_congr
    intro run hrun
    exact (contains_slice_cover index opIndex hrun).symm
  rw [spansFrom_eq_runs, hmembers, Text.wordSpans, ← Text.map_cover_runs, List.filter_map,
    List.filter_map, List.filter_filter]
  congr 1
  apply List.filter_congr
  intro run _
  simp

/-- Stretches of a text that have the same match are the same. -/
theorem eq_of_matchAt_eq {text : Text} {offset : Nat} {first second : Span}
    (hfirst : first ∈ Text.stretches text.wordSpans)
    (hsecond : second ∈ Text.stretches text.wordSpans)
    (hmatch : text.matchAt offset first = text.matchAt offset second) : first = second := by
  rcases Text.bounds_of_mem_stretches hfirst with ⟨hfirstStart, hfirstStop⟩
  rcases Text.bounds_of_mem_stretches hsecond with ⟨hsecondStart, hsecondStop⟩
  rcases Match.mk.inj hmatch with ⟨hterm, hposition⟩
  have hlength := congrArg List.length hterm
  simp only [Text.slice, List.length_take, List.length_drop] at hlength
  have hstart : first.start = second.start := by omega
  have hstop : first.stop = second.stop := by omega
  cases first
  cases second
  exact congrArg₂ Span.mk hstart hstop

/-- No match is reported twice. -/
theorem nodup_matchesFrom (index : Index) (text : Text) (limit offset opIndex : Nat) :
    (index.matchesFrom text limit offset opIndex).Nodup := by
  have hdistinct : (Text.stretches text.wordSpans).Nodup := by
    refine (Text.pairwise_stretches_wordSpans text).imp ?_
    rintro first second hprecedes rfl
    rcases hprecedes with hstart | ⟨-, hstop⟩
    · exact Nat.lt_irrefl _ hstart
    · exact Nat.lt_irrefl _ hstop
  rw [matchesFrom, spansFrom_eq_stretches]
  refine List.Nodup.map_on ?_ (hdistinct.filter _)
  intro first hfirst second hsecond hmatch
  exact eq_of_matchAt_eq (List.mem_of_mem_filter hfirst) (List.mem_of_mem_filter hsecond)
    hmatch

/-- The words of a text are its maximal runs of bytes other than the space, and a scan
reports the stretches from the start of a word in front of the limit to the end of the same
or a later word that name a member, by their first word and then by their last, each of
them once.  A scan without a limit is one whose limit is the end of the text. -/
theorem matchesFrom_enumerates (index : Index) (text : Text) (limit offset opIndex : Nat) :
    (∀ span, span ∈ text.wordSpans ↔ text.IsWord span) ∧
    text.wordSpans.Pairwise (fun first second => first.stop < second.start) ∧
    index.matchesFrom text limit offset opIndex =
      ((Text.stretches text.wordSpans).filter fun span =>
        span.start < limit ∧
          index.contains (text.slice span.start span.stop) opIndex = true).map
        (fun span => ⟨text.slice span.start span.stop, offset + span.start⟩) ∧
    (index.matchesFrom text limit offset opIndex).Nodup ∧
    index.matchesIn text offset opIndex =
      index.matchesFrom text text.length offset opIndex := by
  refine ⟨Text.mem_wordSpans_iff text, Text.pairwise_wordSpans text, ?_,
    nodup_matchesFrom index text limit offset opIndex, rfl⟩
  rw [matchesFrom, spansFrom_eq_stretches]
  rfl

end Index

end PhraseLedger
