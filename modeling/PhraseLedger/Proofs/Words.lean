import PhraseLedger.Text.Words

/-!
# Words and spaces

The words of a text are found byte by byte from its end.  This module relates them to
the pieces between the spaces of the text, which is the form in which all further
proofs use them.

Main results:

- Theorem {lit}`Text.pieceInduction`: induction along the pieces of a text between
  occurrences of a separator.
- Theorem {lit}`Text.wordsFrom_append_space`: a space divides the words of a text.
- Theorem {lit}`Text.wordsFrom_eq_placePieces`: where the words of a text stand.
- Theorem {lit}`Text.phrase_eq_wordList`: the words of a text are its nonempty pieces
  between spaces.
- Theorem {lit}`Text.phrase_spell`: spelling words with single spaces loses none of
  them.
- Theorem {lit}`Text.wordsFrom_slice_cover`: consecutive words are the words of the
  stretch that they cover.
-/

namespace PhraseLedger

namespace Word

/-- A word of a text that is moved by `offset` bytes. -/
def shift (offset : Nat) (word : Word) : Word :=
  ⟨offset + word.start, word.bytes⟩

@[simp] theorem shift_start (offset : Nat) (word : Word) :
    (word.shift offset).start = offset + word.start := rfl

@[simp] theorem shift_bytes (offset : Nat) (word : Word) :
    (word.shift offset).bytes = word.bytes := rfl

@[simp] theorem shift_stop (offset : Nat) (word : Word) :
    (word.shift offset).stop = offset + word.stop := by
  simp only [stop, shift_start, shift_bytes]
  omega

end Word

namespace Text

/-- Every text is a piece without the separator `sep`, or such a piece followed by the
separator and a text. -/
theorem pieceInduction (sep : UInt8) {motive : Text → Prop}
    (last : ∀ piece, sep ∉ piece → motive piece)
    (next : ∀ piece rest, sep ∉ piece → motive rest → motive (piece ++ sep :: rest))
    (text : Text) : motive text := by
  by_cases hmem : sep ∈ text
  · rcases List.eq_append_cons_of_mem hmem with ⟨piece, rest, htext, hfree⟩
    have hshorter : rest.length < text.length := by
      simp only [htext, List.length_append, List.length_cons]
      omega
    rw [htext]
    exact next piece rest hfree (pieceInduction sep last next rest)
  · exact last text hmem
termination_by text.length

/-! ## Words and their positions -/

@[simp] theorem joinByte_space (pos : Nat) (words : List Word) :
    joinByte space pos words = words := by
  simp [joinByte]

/-- A byte that opens or grows a word gives that word the position of the byte. -/
theorem joinByte_of_ne {byte : UInt8} (hbyte : byte ≠ space) (pos : Nat)
    (words : List Word) :
    ∃ bytes rest, joinByte byte pos words = ⟨pos, bytes⟩ :: rest ∧
      ∀ word ∈ rest, word ∈ words := by
  cases words with
  | nil => exact ⟨[byte], [], by simp [joinByte, hbyte], by simp⟩
  | cons first rest =>
      by_cases hstart : first.start = pos + 1
      · exact ⟨byte :: first.bytes, rest, by simp [joinByte, hbyte, hstart],
          fun word hword => List.mem_cons_of_mem _ hword⟩
      · exact ⟨[byte], first :: rest, by simp [joinByte, hbyte, hstart],
          fun word hword => hword⟩

/-- No word starts before the text that it belongs to. -/
theorem le_start_of_mem_wordsFrom {pos : Nat} {text : Text} {word : Word}
    (hword : word ∈ wordsFrom pos text) : pos ≤ word.start := by
  induction text generalizing pos with
  | nil => simp at hword
  | cons byte text ih =>
      rw [wordsFrom_cons] at hword
      by_cases hbyte : byte = space
      · rw [hbyte, joinByte_space] at hword
        exact Nat.le_of_succ_le (ih hword)
      · obtain ⟨bytes, rest, hjoin, hrest⟩ :=
          joinByte_of_ne hbyte pos (wordsFrom (pos + 1) text)
        rw [hjoin] at hword
        rcases List.mem_cons.mp hword with rfl | hword
        · exact Nat.le_refl pos
        · exact Nat.le_of_succ_le (ih (hrest word hword))

/-- Words that start behind the next position take no byte from what stands in front
of them. -/
theorem joinByte_append (byte : UInt8) (pos : Nat) (front back : List Word)
    (hback : ∀ word ∈ back, pos + 1 < word.start) :
    joinByte byte pos (front ++ back) = joinByte byte pos front ++ back := by
  by_cases hbyte : byte = space
  · simp [hbyte]
  · cases front with
    | nil =>
        cases back with
        | nil => simp
        | cons first rest =>
            have hstart : first.start ≠ pos + 1 := by
              have := hback first List.mem_cons_self
              omega
            simp [joinByte, hbyte, hstart]
    | cons first rest =>
        by_cases hstart : first.start = pos + 1 <;> simp [joinByte, hbyte, hstart]

/-- A space divides the words of a text into those in front of it and those behind
it. -/
theorem wordsFrom_append_space (pos : Nat) (front back : Text) :
    wordsFrom pos (front ++ space :: back) =
      wordsFrom pos front ++ wordsFrom (pos + front.length + 1) back := by
  induction front generalizing pos with
  | nil => simp [wordsFrom_cons]
  | cons byte front ih =>
      have hback : ∀ word ∈ wordsFrom (pos + 1 + front.length + 1) back,
          pos + 1 < word.start := by
        intro word hword
        have := le_start_of_mem_wordsFrom hword
        omega
      rw [List.cons_append, wordsFrom_cons, ih, joinByte_append byte pos _ _ hback,
        wordsFrom_cons, List.length_cons,
        show pos + (front.length + 1) + 1 = pos + 1 + front.length + 1 by omega]

/-- A piece without spaces is one word, unless it is empty. -/
theorem wordsFrom_piece (pos : Nat) {piece : Text} (hfree : space ∉ piece) :
    wordsFrom pos piece = if piece = [] then [] else [⟨pos, piece⟩] := by
  induction piece generalizing pos with
  | nil => simp
  | cons byte piece ih =>
      simp only [List.mem_cons, not_or] at hfree
      have hbyte : byte ≠ space := fun h => hfree.1 h.symm
      rw [wordsFrom_cons, ih (pos + 1) hfree.2]
      cases piece <;> simp [joinByte, hbyte]

/-- The words of a text that is moved are the moved words. -/
theorem wordsFrom_add (offset pos : Nat) (text : Text) :
    wordsFrom (offset + pos) text = (wordsFrom pos text).map (Word.shift offset) := by
  induction text using pieceInduction space generalizing pos with
  | last piece hfree =>
      rw [wordsFrom_piece _ hfree, wordsFrom_piece _ hfree]
      split <;> simp [Word.shift]
  | next piece rest hfree ih =>
      rw [wordsFrom_append_space, wordsFrom_append_space, List.map_append, ← ih,
        wordsFrom_piece _ hfree, wordsFrom_piece _ hfree,
        show offset + pos + piece.length + 1 = offset + (pos + piece.length + 1) by omega]
      split <;> simp [Word.shift]

/-- The words of a text that starts at `offset` are its moved words. -/
theorem wordsFrom_eq_shift (offset : Nat) (text : Text) :
    wordsFrom offset text = text.words.map (Word.shift offset) :=
  wordsFrom_add offset 0 text

/-- The nonempty ones among pieces that stand one behind the other, the first at position
`pos`, with one byte between two of them. -/
def placePieces (pos : Nat) : List Text → List Word
  | [] => []
  | piece :: rest =>
    if piece = [] then placePieces (pos + 1) rest
    else ⟨pos, piece⟩ :: placePieces (pos + piece.length + 1) rest

/-- The words of a text are its nonempty pieces between spaces, where they stand. -/
theorem wordsFrom_eq_placePieces (pos : Nat) (text : Text) :
    wordsFrom pos text = placePieces pos (text.splitOn space) := by
  induction text using pieceInduction space generalizing pos with
  | last piece hfree =>
      rw [wordsFrom_piece pos hfree, List.splitOn_eq_singleton hfree, placePieces,
        placePieces, placePieces]
  | next piece rest hfree ih =>
      rw [wordsFrom_append_space, wordsFrom_piece pos hfree, ih,
        List.splitOn_append_cons_self_of_not_mem hfree, placePieces]
      by_cases hempty : piece = [] <;> simp [hempty]

/-- Every word ends within the text that it belongs to. -/
theorem stop_le_of_mem_wordsFrom {pos : Nat} {text : Text} {word : Word}
    (hword : word ∈ wordsFrom pos text) : word.stop ≤ pos + text.length := by
  induction text using pieceInduction space generalizing pos with
  | last piece hfree =>
      rw [wordsFrom_piece _ hfree] at hword
      split at hword
      · simp at hword
      · simp only [List.mem_singleton] at hword
        simp [hword, Word.stop]
  | next piece rest hfree ih =>
      rw [wordsFrom_append_space, wordsFrom_piece _ hfree, List.mem_append] at hword
      rw [List.length_append, List.length_cons]
      rcases hword with hword | hword
      · split at hword
        · simp at hword
        · simp only [List.mem_singleton] at hword
          simp only [hword, Word.stop]
          omega
      · have := ih hword
        omega

/-! ## Phrases -/

/-- Whether words can stand in a phrase: none of them is empty or holds a space. -/
def IsPhrase (phrase : List Text) : Prop :=
  ∀ word ∈ phrase, word ≠ [] ∧ space ∉ word

/-- The phrase of a text does not depend on the position of the text. -/
theorem map_bytes_wordsFrom (pos : Nat) (text : Text) :
    (wordsFrom pos text).map Word.bytes = text.phrase := by
  rw [wordsFrom_eq_shift, List.map_map, phrase]
  rfl

theorem phrase_append_space (front back : Text) :
    (front ++ space :: back).phrase = front.phrase ++ back.phrase := by
  rw [phrase, words, wordsFrom_append_space, List.map_append, map_bytes_wordsFrom,
    map_bytes_wordsFrom]

theorem phrase_piece {piece : Text} (hfree : space ∉ piece) :
    piece.phrase = if piece = [] then [] else [piece] := by
  rw [phrase, words, wordsFrom_piece 0 hfree]
  split <;> simp

/-- The word list of a text: its nonempty pieces between spaces. -/
def wordList (text : Text) : List Text :=
  (text.splitOn space).filter (· ≠ [])

/-- The phrase of a text is its word list. -/
theorem phrase_eq_wordList (text : Text) : text.phrase = text.wordList := by
  induction text using pieceInduction space with
  | last piece hfree =>
      rw [phrase_piece hfree, wordList, List.splitOn_eq_singleton hfree]
      by_cases hempty : piece = [] <;> simp [hempty]
  | next piece rest hfree ih =>
      rw [phrase_append_space, phrase_piece hfree, ih, wordList, wordList,
        List.splitOn_append_cons_self_of_not_mem hfree]
      by_cases hempty : piece = [] <;> simp [hempty]

/-- The words of a text are nonempty and free of spaces. -/
theorem isPhrase_phrase (text : Text) : IsPhrase text.phrase := by
  induction text using pieceInduction space with
  | last piece hfree =>
      rw [phrase_piece hfree]
      split
      · simp [IsPhrase]
      · rename_i hempty
        simp [IsPhrase, hempty, hfree]
  | next piece rest hfree ih =>
      rw [phrase_append_space, phrase_piece hfree]
      intro word hword
      rcases List.mem_append.mp hword with hword | hword
      · split at hword
        · simp at hword
        · rename_i hempty
          rw [List.mem_singleton.mp hword]
          exact ⟨hempty, hfree⟩
      · exact ih word hword

/-- Every word starts within the text that it belongs to. -/
theorem start_lt_of_mem_wordsFrom {pos : Nat} {text : Text} {word : Word}
    (hword : word ∈ wordsFrom pos text) : word.start < pos + text.length := by
  have hbytes : word.bytes ∈ text.phrase := by
    rw [← map_bytes_wordsFrom pos text]
    exact List.mem_map_of_mem hword
  have hlength := List.length_pos_iff.mpr (isPhrase_phrase text word.bytes hbytes).1
  have hstop := stop_le_of_mem_wordsFrom hword
  rw [Word.stop] at hstop
  omega

theorem spell_cons_cons (first second : Text) (rest : List Text) :
    spell (first :: second :: rest) = first ++ space :: spell (second :: rest) := by
  simp [spell]

/-- Spelling words with single spaces loses none of them. -/
theorem phrase_spell {phrase : List Text} (hphrase : IsPhrase phrase) :
    (spell phrase).phrase = phrase := by
  induction phrase with
  | nil => simp [spell, Text.phrase, words]
  | cons first rest ih =>
      have hfirst := hphrase first List.mem_cons_self
      have hrest : IsPhrase rest := fun word hword =>
        hphrase word (List.mem_cons_of_mem _ hword)
      cases rest with
      | nil =>
          rw [show spell [first] = first by simp [spell], phrase_piece hfirst.2,
            if_neg hfirst.1]
      | cons second rest =>
          rw [spell_cons_cons, phrase_append_space, phrase_piece hfirst.2,
            if_neg hfirst.1, ih hrest, List.singleton_append]

/-- Phrases with the same spelling are the same. -/
theorem spell_inj {first second : List Text} (hfirst : IsPhrase first)
    (hsecond : IsPhrase second) : spell first = spell second ↔ first = second := by
  constructor
  · intro hspell
    rw [← phrase_spell hfirst, hspell, phrase_spell hsecond]
  · intro heq
    rw [heq]

theorem hasWord_piece {piece : Text} (hfree : space ∉ piece) :
    piece.hasWord = true ↔ piece ≠ [] := by
  cases piece with
  | nil => simp [hasWord]
  | cons byte piece =>
      have hbyte : byte ≠ space := by
        intro hspace
        exact hfree (by simp [hspace])
      simp [hasWord, hbyte]

/-- A text has a word exactly if its phrase is not empty. -/
theorem hasWord_iff (text : Text) : text.hasWord = true ↔ text.phrase ≠ [] := by
  induction text using pieceInduction space with
  | last piece hfree =>
      rw [hasWord_piece hfree, phrase_piece hfree]
      by_cases hempty : piece = [] <;> simp [hempty]
  | next piece rest hfree ih =>
      have happend : (piece ++ space :: rest).hasWord =
          (piece.hasWord || rest.hasWord) := by
        simp [hasWord]
      rw [happend, Bool.or_eq_true, hasWord_piece hfree, ih, phrase_append_space,
        phrase_piece hfree]
      by_cases hempty : piece = [] <;> simp [hempty]

/-! ## Stretches of words -/

/-- The stretch from the first to the last of some words. -/
def cover : List Word → Span
  | [] => ⟨0, 0⟩
  | first :: rest => ⟨first.start, (rest.getLastD first).stop⟩

/-- A word that is not the first piece of a text lies behind the first space. -/
theorem exists_skipped {pos later : Nat} {piece rest : Text} {front back : List Word}
    {word : Word} (hfree : space ∉ piece) (hfirst : ¬(front = [] ∧ piece ≠ []))
    (hwords : wordsFrom pos piece ++ wordsFrom later rest = front ++ word :: back) :
    ∃ skipped, front = wordsFrom pos piece ++ skipped ∧
      wordsFrom later rest = skipped ++ word :: back := by
  rw [wordsFrom_piece pos hfree] at hwords ⊢
  by_cases hempty : piece = []
  · exact ⟨front, by simp [hempty], by simpa [hempty] using hwords⟩
  · rw [if_neg hempty] at hwords ⊢
    cases front with
    | nil => exact absurd ⟨rfl, hempty⟩ hfirst
    | cons other front =>
        rcases List.cons.inj hwords with ⟨hother, hrest⟩
        exact ⟨front, by simp [hother], hrest⟩

/-- A text can be cut right in front of each of its words. -/
theorem exists_cut_before {pos : Nat} {text : Text} {front back : List Word}
    {word : Word} (hwords : wordsFrom pos text = front ++ word :: back) :
    ∃ before after, text = before ++ after ∧ word.start = pos + before.length ∧
      wordsFrom word.start after = word :: back := by
  induction text using pieceInduction space generalizing pos front with
  | last piece hfree =>
      have hword : wordsFrom pos piece = [⟨pos, piece⟩] := by
        rw [wordsFrom_piece pos hfree] at hwords ⊢
        split
        · rename_i hempty
          simp [hempty] at hwords
        · rfl
      have hsingle := hwords.symm.trans hword
      rw [List.append_eq_singleton_iff] at hsingle
      rcases hsingle with ⟨-, hcons⟩ | ⟨-, hcons⟩
      · have hstart : word.start = pos := by
          rw [(List.cons.inj hcons).1]
        refine ⟨[], piece, rfl, hstart, ?_⟩
        rw [hstart, hword, hcons]
      · simp at hcons
  | next piece rest hfree ih =>
      rw [wordsFrom_append_space] at hwords
      by_cases hfirst : front = [] ∧ piece ≠ []
      · rw [wordsFrom_piece pos hfree, if_neg hfirst.2, hfirst.1, List.nil_append,
          List.singleton_append] at hwords
        rcases List.cons.inj hwords with ⟨hword, hback⟩
        have hstart : word.start = pos := by
          rw [← hword]
        refine ⟨[], piece ++ space :: rest, rfl, hstart, ?_⟩
        rw [hstart, wordsFrom_append_space, wordsFrom_piece pos hfree,
          if_neg hfirst.2, hword, hback]
        rfl
      · rcases exists_skipped hfree hfirst hwords with ⟨skipped, -, hskipped⟩
        rcases ih hskipped with ⟨before, after, hsplit, hstart, hafter⟩
        refine ⟨piece ++ space :: before, after, ?_, ?_, hafter⟩
        · simp [hsplit]
        · rw [hstart, List.length_append, List.length_cons]
          omega

/-- A text can be cut right behind each of its words. -/
theorem exists_cut_after {pos : Nat} {text : Text} {front back : List Word}
    {word : Word} (hwords : wordsFrom pos text = front ++ word :: back) :
    ∃ before after, text = before ++ after ∧ word.stop = pos + before.length ∧
      wordsFrom pos before = front ++ [word] := by
  induction text using pieceInduction space generalizing pos front with
  | last piece hfree =>
      have hpiece := wordsFrom_piece pos hfree
      rw [hwords] at hpiece
      split at hpiece
      · simp at hpiece
      · rw [List.append_eq_singleton_iff] at hpiece
        rcases hpiece with ⟨hfront, hcons⟩ | ⟨-, hcons⟩
        · rcases List.cons.inj hcons with ⟨hword, hback⟩
          refine ⟨piece, [], by simp, by simp [hword, Word.stop], ?_⟩
          rw [hwords, hback]
        · simp at hcons
  | next piece rest hfree ih =>
      rw [wordsFrom_append_space] at hwords
      by_cases hfirst : front = [] ∧ piece ≠ []
      · rw [wordsFrom_piece pos hfree, if_neg hfirst.2, hfirst.1, List.nil_append,
          List.singleton_append] at hwords
        rcases List.cons.inj hwords with ⟨hword, -⟩
        refine ⟨piece, space :: rest, rfl, by simp [← hword, Word.stop], ?_⟩
        rw [wordsFrom_piece pos hfree, if_neg hfirst.2, hword, hfirst.1, List.nil_append]
      · rcases exists_skipped hfree hfirst hwords with ⟨skipped, hfront, hskipped⟩
        rcases ih hskipped with ⟨before, after, hsplit, hstop, hbefore⟩
        refine ⟨piece ++ space :: before, after, ?_, ?_, ?_⟩
        · simp [hsplit]
        · rw [hstop, List.length_append, List.length_cons]
          omega
        · rw [wordsFrom_append_space, hbefore, hfront, List.append_assoc]

/-- The words of the stretch that some consecutive words cover are these words. -/
theorem wordsFrom_slice_cover {text : Text} {front rest back : List Word} {first : Word}
    (hwords : text.words = front ++ (first :: rest) ++ back) :
    wordsFrom first.start
      (text.slice (cover (first :: rest)).start (cover (first :: rest)).stop) =
        first :: rest := by
  have hlast : (first :: rest).dropLast ++ [rest.getLastD first] = first :: rest := by
    rw [← List.getLast_eq_getLastD (List.cons_ne_nil first rest),
      List.dropLast_concat_getLast]
  have hfirst : wordsFrom 0 text = front ++ first :: (rest ++ back) := by
    rw [← List.cons_append, ← List.append_assoc]
    exact hwords
  rcases exists_cut_before hfirst with ⟨before, after, htext, hstart, hafter⟩
  have hinner : wordsFrom first.start after =
      (first :: rest).dropLast ++ rest.getLastD first :: back := by
    rw [hafter, ← List.cons_append, ← hlast, List.append_assoc, List.singleton_append]
    simp only [hlast]
  rcases exists_cut_after hinner with ⟨inner, behind, hafter_eq, hstop, hinner_words⟩
  have hslice : text.slice first.start (rest.getLastD first).stop = inner := by
    have hdrop : text.drop first.start = after := by
      rw [htext, hstart, Nat.zero_add, List.drop_left]
    rw [slice, hdrop, hstop, Nat.add_sub_cancel_left, hafter_eq, List.take_left]
  rw [cover, hslice, hinner_words, hlast]

/-- The phrase of the stretch that some consecutive words cover is their phrase. -/
theorem phrase_slice_cover {text : Text} {front rest back : List Word} {first : Word}
    (hwords : text.words = front ++ (first :: rest) ++ back) :
    (text.slice (cover (first :: rest)).start (cover (first :: rest)).stop).phrase =
      (first :: rest).map Word.bytes := by
  rw [← map_bytes_wordsFrom first.start, wordsFrom_slice_cover hwords]

end Text

end PhraseLedger
