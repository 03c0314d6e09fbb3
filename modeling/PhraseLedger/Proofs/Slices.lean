import PhraseLedger.Proofs.Commands
import PhraseLedger.Proofs.Dispatch
import PhraseLedger.Proofs.Stretches
import PhraseLedger.Proofs.Utf8Lines

/-!
# Slices of texts

A text can be sliced between two characters only.  All slices that are taken of a document or of
a line start at its start or behind or at a space, and end at its end or at a space, and a space
is a character of its own.

Main definitions:

- Definition {lit}`Text.CanSlice`: whether a stretch of a text can be sliced.

Main results:

- Theorem {lit}`Text.canSlice_of_mem_stretches`: the stretches between words.
- Theorem {lit}`Text.canSlice_of_mem_fragments`: the fragments of a document.
- Theorem {lit}`Command.canSlice_payload`: what stands behind the letter of a command.
-/

namespace PhraseLedger

/-- No character starts with a byte that continues one. -/
theorem Utf8.lead_of_isContinuation {byte : UInt8} (hbyte : isContinuation byte = true) :
    lead byte = none := by
  rw [isContinuation, Bool.and_eq_true, decide_eq_true_iff, decide_eq_true_iff] at hbyte
  have hascii : ¬byte < 0x80 := UInt8.not_lt.mpr hbyte.1
  have hlow : byte < 0xC2 := UInt8.lt_trans hbyte.2 (by decide)
  rw [lead, if_neg hascii, if_pos hlow]

namespace Text

/-- Whether a stretch lies within a text and cuts no character of it. -/
structure CanSlice (text : Text) (span : Span) : Prop where
  ordered : span.start ≤ span.stop
  inside : span.stop ≤ text.length
  start : text.isBoundary span.start = true
  stop : text.isBoundary span.stop = true

/-! ## Boundaries -/

theorem isBoundary_length (text : Text) : text.isBoundary text.length = true := by
  rw [isBoundary, List.getElem?_eq_none le_rfl]
  exact beq_self_eq_true _

theorem isBoundary_of_space {text : Text} {pos : Nat} (hspace : text[pos]? = some space) :
    text.isBoundary pos = true := by
  rw [isBoundary, hspace]
  simp [Utf8.isContinuation, space]

/-- A text that is UTF-8 from some position on has a boundary there. -/
theorem isBoundary_of_isUtf8_drop {text : Text} {pos : Nat} (hpos : pos ≤ text.length)
    (hutf8 : isUtf8 (text.drop pos) = true) : text.isBoundary pos = true := by
  rcases hpos.eq_or_lt with rfl | hbound
  · exact isBoundary_length text
  · rw [isBoundary, List.getElem?_eq_getElem hbound]
    cases hbyte : Utf8.isContinuation text[pos] with
    | false => simp [hbyte]
    | true =>
        rw [isUtf8, List.drop_eq_getElem_cons hbound, List.foldlM_cons, Utf8.step,
          Utf8.lead_of_isContinuation hbyte] at hutf8
        cases hutf8

theorem drop_of_space {text : Text} {pos : Nat} (hspace : text[pos]? = some space) :
    text.drop pos = space :: text.drop (pos + 1) := by
  rcases List.getElem?_eq_some_iff.mp hspace with ⟨hbound, hbyte⟩
  rw [List.drop_eq_getElem_cons hbound, hbyte]

/-- A text that is cut in front of or behind a space is UTF-8 behind the cut. -/
theorem isUtf8_drop_of_space {text : Text} {pos : Nat} (hutf8 : text.isUtf8 = true)
    (hspace : text[pos]? = some space) :
    isUtf8 (text.drop pos) = true ∧ isUtf8 (text.drop (pos + 1)) = true := by
  have hdrop := drop_of_space hspace
  rw [← List.take_append_drop pos text, hdrop, isUtf8_append_ascii _ _ (by decide),
    Bool.and_eq_true] at hutf8
  refine ⟨?_, hutf8.2⟩
  rw [hdrop, ← List.nil_append (space :: _), isUtf8_append_ascii _ _ (by decide), hutf8.2]
  rfl

/-! ## Words -/

/-- A word can be sliced, and the text is UTF-8 from its start on. -/
theorem IsWord.canSlice {text : Text} {span : Span} (hword : text.IsWord span)
    (hutf8 : text.isUtf8 = true) : text.CanSlice span := by
  refine ⟨hword.nonempty.le, hword.inside, ?_, ?_⟩
  · have hinside := hword.nonempty.le.trans hword.inside
    rcases Nat.eq_zero_or_pos span.start with hzero | hpositive
    · rw [hzero]
      exact isBoundary_zero text
    · rcases hword.before with hzero | hspace
      · omega
      · have hdrop := (isUtf8_drop_of_space hutf8 hspace).2
        rw [Nat.sub_add_cancel hpositive] at hdrop
        exact isBoundary_of_isUtf8_drop hinside hdrop
  · rcases hword.behind with hend | hspace
    · rw [hend]
      exact isBoundary_length text
    · exact isBoundary_of_space hspace

/-- A stretch from the start of a word to the end of the same or a later one can be sliced. -/
theorem canSlice_of_mem_stretches {text : Text} (hutf8 : text.isUtf8 = true) {span : Span}
    (hspan : span ∈ stretches text.wordSpans) : text.CanSlice span := by
  have hwords : ∀ word ∈ text.wordSpans, text.IsWord word :=
    fun word hword => (mem_wordSpans_iff text word).mp hword
  rcases exists_words_of_mem_stretches (fun word hword => (hwords word hword).nonempty)
    (pairwise_wordSpans text) hspan with ⟨first, hfirst, last, hlast, hstart, hstop, hnonempty⟩
  have hfirstWord := (hwords first hfirst).canSlice hutf8
  have hlastWord := (hwords last hlast).canSlice hutf8
  exact ⟨hnonempty.le, hstop ▸ hlastWord.inside, hstart ▸ hfirstWord.start,
    hstop ▸ hlastWord.stop⟩

/-! ## Fragments -/

/-- The fragments of the rest of a document lie within the document, and each starts where the
rest does or at a space, and ends at the end of the document or at a space. -/
theorem ends_of_mem_fragmentsFrom {document text : Text} {least start : Nat}
    {positive : 0 < least} (hdrop : document.drop start = text)
    {fragment : Span} (hfragment : fragment ∈ fragmentsFrom least positive start text) :
    fragment.start ≤ fragment.stop ∧ fragment.stop ≤ document.length ∧
      (fragment.start = start ∨ document[fragment.start]? = some space) ∧
      (fragment.stop = document.length ∨ document[fragment.stop]? = some space) := by
  induction start, text using fragmentsFrom.induct least positive with
  | case1 start text htext length ih =>
      rw [fragmentsFrom_of_ne_nil least positive start htext] at hfragment
      have hrest : document.drop (start + length) = text.drop length := by
        rw [← hdrop, List.drop_drop]
      have hlength : length ≤ text.length := fragmentLength_le least text
      have hdocument : text.length = document.length - start := by
        rw [← hdrop, List.length_drop]
      have hnonempty := List.length_pos_iff.mpr htext
      have hend : start + length = document.length ∨ document[start + length]? = some space := by
        rcases drop_fragmentLength least text with hnil | ⟨rest, hspace⟩
        · have hall := List.drop_eq_nil_iff.mp hnil
          exact .inl (by omega)
        · refine .inr ?_
          rw [← List.head?_drop, hrest, hspace, List.head?_cons]
      rcases List.mem_cons.mp hfragment with rfl | hlater
      · exact ⟨Nat.le_add_right _ _, by simp only; omega, .inl rfl, hend⟩
      · rcases ih hrest hlater with ⟨hordered, hinside, hstart | hspace, hstop⟩
        · refine ⟨hordered, hinside, .inr ?_, hstop⟩
          rw [hstart]
          rcases hend with hwhole | hspace
          · -- Behind a fragment that ends with the document there is no other one.
            rw [List.drop_eq_nil_iff.mpr (by omega : text.length ≤ length),
              fragmentsFrom_nil] at hlater
            cases hlater
          · exact hspace
        · exact ⟨hordered, hinside, .inr hspace, hstop⟩
  | case2 start text htext =>
      rw [not_not.mp htext, fragmentsFrom_nil] at hfragment
      cases hfragment

/-- A fragment of a document can be sliced, and the document is UTF-8 from its start on. -/
theorem canSlice_of_mem_fragments {document : Text} (hutf8 : document.isUtf8 = true)
    {count : Nat} {fragment : Span} (hfragment : fragment ∈ document.fragments count) :
    document.CanSlice fragment ∧ isUtf8 (document.drop fragment.start) = true := by
  rcases ends_of_mem_fragmentsFrom List.drop_zero hfragment with
    ⟨hordered, hinside, hstart, hstop⟩
  refine ⟨⟨hordered, hinside, isBoundary_of_mem_fragments hfragment, ?_⟩, ?_⟩
  · rcases hstop with hend | hspace
    · rw [hend]
      exact isBoundary_length document
    · exact isBoundary_of_space hspace
  · rcases hstart with hzero | hspace
    · rw [hzero]
      exact hutf8
    · exact (isUtf8_drop_of_space hutf8 hspace).1

end Text

namespace Index

/-- What a scan reports of a text can be sliced. -/
theorem canSlice_of_mem_spansFrom (index : Index) {text : Text} (hutf8 : text.isUtf8 = true)
    {limit opIndex : Nat} {span : Span} (hspan : span ∈ index.spansFrom text limit opIndex) :
    text.CanSlice span := by
  rw [spansFrom_eq_stretches] at hspan
  exact Text.canSlice_of_mem_stretches hutf8 (List.mem_filter.mp hspan).1

end Index

namespace Query

/-- The document of a query from the start of a fragment on. -/
def rest (query : Query) (fragment : Span) : Text :=
  query.document.drop fragment.start

/-- What can be sliced when a query is answered: each fragment of its document, the words of
the document from the start of a fragment on, what a scan reports there, and the same for a
document that is not cut. -/
structure Slices (index : Index) (settings : Settings) (query : Query) : Prop where
  fragments : ∀ fragment ∈ query.pieces settings, query.document.CanSlice fragment
  words : ∀ fragment ∈ query.pieces settings,
    ∀ word ∈ (query.rest fragment).wordSpans, (query.rest fragment).CanSlice word
  terms : ∀ fragment ∈ query.pieces settings,
    ∀ span ∈ index.spansFrom (query.rest fragment) fragment.length query.opIndex,
      (query.rest fragment).CanSlice span
  uncut : (∀ word ∈ query.document.wordSpans, query.document.CanSlice word) ∧
    ∀ span ∈ index.spansFrom query.document query.document.length query.opIndex,
      query.document.CanSlice span

/-- All slices that are taken of a document can be taken. -/
theorem slices_of_isUtf8 (index : Index) (settings : Settings) {query : Query}
    (hutf8 : query.document.isUtf8 = true) : query.Slices index settings := by
  have hwords : ∀ text : Text, text.isUtf8 = true → ∀ word ∈ text.wordSpans, text.CanSlice word :=
    fun text htext word hword => ((Text.mem_wordSpans_iff text word).mp hword).canSlice htext
  constructor
  · exact fun fragment hfragment => (Text.canSlice_of_mem_fragments hutf8 hfragment).1
  · exact fun fragment hfragment =>
      hwords _ (Text.canSlice_of_mem_fragments hutf8 hfragment).2
  · exact fun fragment hfragment span =>
      index.canSlice_of_mem_spansFrom (Text.canSlice_of_mem_fragments hutf8 hfragment).2
  · exact ⟨hwords _ hutf8, fun span => index.canSlice_of_mem_spansFrom hutf8⟩

end Query

namespace Command

/-- What stands behind the letter of a command and a space. -/
def text? : Command → Option Text
  | .add phrase => some phrase
  | .remove phrase => some phrase
  | .query document => some document
  | .flush => none

/-- What stands behind the letter of a command and a space can be sliced off its line. -/
theorem canSlice_payload {line : Text} (hutf8 : line.isUtf8 = true) {command : Command}
    (hparse : parse line = .ok command) {text : Text} (htext : command.text? = some text) :
    line.CanSlice ⟨2, line.length⟩ ∧ text = line.slice 2 line.length ∧ text.isUtf8 = true := by
  have hline : ∃ letter, line = letter :: Text.space :: text := by
    rw [(parse_eq_ok_iff line command).mp hparse]
    cases command with
    | flush => cases htext
    | _ => exact ⟨_, by rw [spelling, Option.some.inj htext]⟩
  rcases hline with ⟨letter, rfl⟩
  have hspace : (letter :: Text.space :: text)[1]? = some Text.space := rfl
  have hpayload : text.isUtf8 = true := (Text.isUtf8_drop_of_space hutf8 hspace).2
  have hlength : 2 ≤ (letter :: Text.space :: text).length := by simp
  refine ⟨⟨hlength, le_rfl, Text.isBoundary_of_isUtf8_drop hlength hpayload,
    Text.isBoundary_length _⟩, ?_, hpayload⟩
  simp [Text.slice]

end Command

end PhraseLedger
