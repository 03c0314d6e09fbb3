import PhraseLedger.Text.Words

/-!
# Matches and result lines

A match is a member phrase found in a document.  The answer to a query lists the
distinct texts of its matches in the order of their first occurrence.

Main definitions:

- Definition {lit}`Match.distinct`: the first match of every text.
- Definition {lit}`Match.resultLine`: the answer line of a query.
-/

namespace PhraseLedger

/-- A member phrase found in a document: its text, from the first byte of its first
word to the last byte of its last word, and the position of that first byte. -/
structure Match where
  term : Text
  position : Nat
deriving DecidableEq, Repr

namespace Match

/-- The matches whose text is neither in `seen` nor the text of an earlier match. -/
def unseen (seen : List Text) : List Match → List Match
  | [] => []
  | m :: rest =>
    if m.term ∈ seen then unseen seen rest else m :: unseen (m.term :: seen) rest

/-- The first match of every text, in order. -/
def distinct (found : List Match) : List Match :=
  unseen [] found

/-- The byte that ends a line. -/
def newline : UInt8 := 10

/-- The byte between two texts of an answer line. -/
def bar : UInt8 := 124

/-- The answer to a query without matches, `-1`. -/
def noMatch : Text := [45, 49]

/-- The answer line of a query: the texts of its matches with bars between them. -/
def resultLine (found : List Match) : Text :=
  match found with
  | [] => noMatch ++ [newline]
  | _ => [bar].intercalate (found.map Match.term) ++ [newline]

end Match

end PhraseLedger
