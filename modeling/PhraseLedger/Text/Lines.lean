import PhraseLedger.Text.Words

/-!
# Lines of a text

A line ends with a newline, in front of which a carriage return may stand, or at the
end of the text.

Main definitions:

- Definition {lit}`Text.lines`: the lines of a text with their ends.
- Definition {lit}`Text.completeLines`: the lines that more text cannot change.
- Definition {lit}`Text.trimLineEnd`: a line without its end.
-/

namespace PhraseLedger

namespace Text

/-- The byte that ends a line. -/
def lineFeed : UInt8 := 10

/-- The byte that may stand in front of the end of a line. -/
def carriageReturn : UInt8 := 13

/-- The lines after the byte `byte` is put in front of a text with lines `lines`. -/
def joinLine (byte : UInt8) (lines : List Text) : List Text :=
  if byte = lineFeed then [byte] :: lines
  else
    match lines with
    | [] => [[byte]]
    | line :: rest => (byte :: line) :: rest

/-- The lines of a text, each with its line feed; the last one may lack it. -/
def lines (text : Text) : List Text :=
  text.foldr joinLine []

/-- The lines of a text that have their line feed, and the rest of the text behind
them. -/
def completeLines (text : Text) : List Text × Text :=
  let found := text.lines
  match found.getLast? with
  | none => ([], [])
  | some last =>
    if last.getLast? = some lineFeed then (found, []) else (found.dropLast, last)

/-- A text without the byte `byte` at its end, if it is there. -/
def chop (byte : UInt8) (text : Text) : Text :=
  if text.getLast? = some byte then text.dropLast else text

/-- A line without a line feed at its end and then without a carriage return at its
end. -/
def trimLineEnd (line : Text) : Text :=
  chop carriageReturn (chop lineFeed line)

end Text

end PhraseLedger
