import PhraseLedger.Text.Words

/-!
# Cutting texts and lists into pieces

A long document is cut into fragments at spaces, so that no word is cut.  Before it is
cut, room is reserved for as many fragments as are asked for, however few there will be.
A batch of items is cut into slices whose sizes differ by at most one.

Main definitions:

- Definition {lit}`Text.hasRoom`: whether room for fragments can be reserved.
- Definition {lit}`Text.fragments?`: the fragments of a document, if there is room.
- Definition {lit}`Slice.spans`: the slices of a number of items.
- Definition {lit}`Slice.split`: cuts a list into slices.
-/

namespace PhraseLedger

namespace Text

/-- Length of the first fragment of a text: `least` bytes, and on to the next space or
the end of the text. -/
def fragmentLength (least : Nat) (text : Text) : Nat :=
  (text.take least).length + ((text.drop least).takeWhile (· != space)).length

/-- The fragments of a text that starts at position `start`, each of at least `least`
bytes except for the last one. -/
def fragmentsFrom (least : Nat) (positive : 0 < least) (start : Nat) (text : Text) :
    List Span :=
  if _nonempty : text ≠ [] then
    let length := fragmentLength least text
    ⟨start, start + length⟩ ::
      fragmentsFrom least positive (start + length) (text.drop length)
  else []
termination_by text.length
decreasing_by
  have := List.length_pos_iff.2 _nonempty
  simp only [List.length_drop, List.length_take, fragmentLength]
  omega

/-- The least length of a fragment when a text of `length` bytes is cut into at most
`count` fragments. -/
def leastFragment (length count : Nat) : Nat :=
  max ((length + (max count 1 - 1)) / max count 1) 1

/-- The fragments into which a document is cut when there is room for them: at most
`count` of them, each of which but the last extends to a space. -/
def fragments (document : Text) (count : Nat) : List Span :=
  fragmentsFrom (leastFragment document.length count)
    (Nat.lt_of_lt_of_le Nat.zero_lt_one (Nat.le_max_right _ _)) 0 document

/-- Whether room for a number of fragments can be reserved.  Each of them takes 16 bytes,
and less than `2 ^ 63` bytes can be reserved at once. -/
def hasRoom (count : Nat) : Bool :=
  count * 16 < 1 <<< 63

/-- Cuts a document into at most `count` fragments.  Room for `count` of them is reserved
first, whatever the length of the document is; nothing if there cannot be so much. -/
def fragments? (document : Text) (count : Nat) : Option (List Span) :=
  if hasRoom count then some (document.fragments count) else none

end Text

namespace Slice

/-- Sizes of the slices of `length` items: as many slices as `parts`, but no empty
one, and the remainder of the division goes to the first slices. -/
def sizes (length parts : Nat) : List Nat :=
  let count := min parts length
  (List.range count).map fun i => length / count + if i < length % count then 1 else 0

/-- Stretches of given sizes, one behind the other. -/
def layOut (start : Nat) : List Nat → List Span
  | [] => []
  | size :: rest => ⟨start, start + size⟩ :: layOut (start + size) rest

/-- The slices of `length` items. -/
def spans (length parts : Nat) : List Span :=
  layOut 0 (sizes length parts)

/-- Takes pieces of given sizes off a list. -/
def takeEach {α : Type} : List Nat → List α → List (List α)
  | [], _ => []
  | size :: rest, items => items.take size :: takeEach rest (items.drop size)

/-- Cuts a list into at most `parts` slices. -/
def split {α : Type} (items : List α) (parts : Nat) : List (List α) :=
  takeEach (sizes items.length parts) items

end Slice

end PhraseLedger
