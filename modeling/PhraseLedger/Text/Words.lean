/-!
# Texts and their words

A text is the list of bytes of its UTF-8 form, and every length and position in
this library counts those bytes.  A word is a maximal run of bytes other than the
space, and a phrase is a text read as the list of its words.

Main definitions:

- Definition {lit}`Text.words`: the words of a text with their positions.
- Definition {lit}`Text.phrase`: the words of a text without their positions.
- Definition {lit}`Text.spell`: words written with a single space between two of
  them.
- Definition {lit}`Text.slice`: the bytes between two positions.
-/

namespace PhraseLedger

/-- A text: the bytes of its UTF-8 form. -/
abbrev Text := List UInt8

/-- A stretch of a text: the position of its first byte and the position behind its
last byte. -/
structure Span where
  start : Nat
  stop : Nat
deriving DecidableEq, Repr

namespace Span

/-- Number of bytes of a stretch; a stretch that ends before it starts has none. -/
def length (span : Span) : Nat :=
  span.stop - span.start

end Span

/-- A word of a text: its bytes and the position of the first of them. -/
structure Word where
  start : Nat
  bytes : Text
deriving DecidableEq, Repr

namespace Word

/-- The position behind the last byte of a word. -/
def stop (word : Word) : Nat :=
  word.start + word.bytes.length

end Word

namespace Text

/-- The byte that separates words. -/
def space : UInt8 := 32

/-- The bytes of a string's UTF-8 form. -/
def ofString (s : String) : Text :=
  s.toByteArray.data.toList

/-- The bytes of a text from position `start` up to, not including, position
`stop`. -/
def slice (text : Text) (start stop : Nat) : Text :=
  (text.drop start).take (stop - start)

/-! ## Words -/

/-- The words after the byte `byte` is put at position `pos`, right in front of the
text that `words` belong to: a space adds nothing, any other byte opens the word
that starts right behind it or is a word of its own. -/
def joinByte (byte : UInt8) (pos : Nat) (words : List Word) : List Word :=
  if byte = space then words
  else
    match words with
    | [] => [⟨pos, [byte]⟩]
    | word :: rest =>
      if word.start = pos + 1 then ⟨pos, byte :: word.bytes⟩ :: rest
      else ⟨pos, [byte]⟩ :: word :: rest

/-- The words of a text whose first byte stands at position `pos`. -/
def wordsFrom (pos : Nat) (text : Text) : List Word :=
  (text.zipIdx pos).foldr (fun entry words => joinByte entry.1 entry.2 words) []

/-- The words of a text, in order. -/
def words (text : Text) : List Word :=
  wordsFrom 0 text

/-- An empty text has no words. -/
@[simp] theorem wordsFrom_nil (pos : Nat) : wordsFrom pos [] = [] := rfl

/-- The words of a text grow at the front, byte by byte. -/
theorem wordsFrom_cons (pos : Nat) (byte : UInt8) (text : Text) :
    wordsFrom pos (byte :: text) = joinByte byte pos (wordsFrom (pos + 1) text) := rfl

/-! ## Phrases -/

/-- A text read as a phrase: the list of its words. -/
def phrase (text : Text) : List Text :=
  text.words.map Word.bytes

/-- Words written with a single space between two of them. -/
def spell (phrase : List Text) : Text :=
  [space].intercalate phrase

/-- Whether a text has a word at all. -/
def hasWord (text : Text) : Bool :=
  text.any (· != space)

end Text

end PhraseLedger
