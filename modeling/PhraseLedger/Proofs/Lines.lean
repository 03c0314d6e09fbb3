import PhraseLedger.Text.Lines
import PhraseLedger.Proofs.Words

/-!
# Lines and line feeds

The lines of a text are found byte by byte from its end and keep their ends at first.
Without their ends they are the pieces of the text between line feeds, except that
nothing is read behind a last line feed.

Main definitions:

- Definition {lit}`Text.linePieces`: the pieces of a text between line feeds.
- Definition {lit}`Text.bareLines`: the lines of a text without their ends.

Main results:

- Theorem {lit}`Text.lines_append_lineFeed`: a line feed ends a line.
- Theorem {lit}`Text.map_trimLineEnd_lines`: the lines without their ends against the
  pieces between line feeds.
-/

namespace PhraseLedger

namespace Text

/-! ## Lines with their ends -/

theorem lines_lineFeed_cons (rest : Text) :
    lines (lineFeed :: rest) = [lineFeed] :: lines rest := by
  simp [lines, joinLine]

theorem lines_cons {byte : UInt8} (hbyte : byte ≠ lineFeed) {rest line : Text}
    {others : List Text} (hrest : lines rest = line :: others) :
    lines (byte :: rest) = (byte :: line) :: others := by
  rw [lines, List.foldr_cons, ← lines, hrest, joinLine, if_neg hbyte]

/-- A piece without line feeds is one line, unless it is empty. -/
theorem lines_piece {piece : Text} (hfree : lineFeed ∉ piece) :
    lines piece = if piece = [] then [] else [piece] := by
  induction piece with
  | nil => rfl
  | cons byte piece ih =>
      simp only [List.mem_cons, not_or] at hfree
      have hbyte : byte ≠ lineFeed := fun h => hfree.1 h.symm
      have hpiece := ih hfree.2
      cases piece with
      | nil => simp [lines, joinLine, hbyte]
      | cons second piece =>
          rw [if_neg (List.cons_ne_nil _ _)] at hpiece ⊢
          exact lines_cons hbyte hpiece

/-- A line feed ends the line in front of it. -/
theorem lines_append_lineFeed {piece : Text} (hfree : lineFeed ∉ piece) (rest : Text) :
    lines (piece ++ lineFeed :: rest) = (piece ++ [lineFeed]) :: lines rest := by
  induction piece with
  | nil => exact lines_lineFeed_cons rest
  | cons byte piece ih =>
      simp only [List.mem_cons, not_or] at hfree
      have hbyte : byte ≠ lineFeed := fun h => hfree.1 h.symm
      exact lines_cons hbyte (ih hfree.2)

/-! ## Lines without their ends -/

/-- A piece without line feeds loses a carriage return at its end only. -/
theorem trimLineEnd_piece {piece : Text} (hfree : lineFeed ∉ piece) :
    trimLineEnd piece = chop carriageReturn piece := by
  have hlast : piece.getLast? ≠ some lineFeed := by
    intro hlast
    exact hfree (List.mem_of_getLast? hlast)
  have hkeep : chop lineFeed piece = piece := if_neg hlast
  rw [trimLineEnd, hkeep]

theorem trimLineEnd_concat (piece : Text) :
    trimLineEnd (piece ++ [lineFeed]) = chop carriageReturn piece := by
  have hfeed : chop lineFeed (piece ++ [lineFeed]) = piece := by
    simp [chop]
  rw [trimLineEnd, hfeed]

/-- The pieces of a text between line feeds, without an empty one at the end. -/
def linePieces (text : Text) : List Text :=
  if (text.splitOn lineFeed).getLast? = some [] then (text.splitOn lineFeed).dropLast
  else text.splitOn lineFeed

/-- The lines of a text without their ends: its pieces between line feeds without a carriage
return at their end. -/
def bareLines (text : Text) : List Text :=
  (linePieces text).map (chop carriageReturn)

theorem linePieces_piece {piece : Text} (hfree : lineFeed ∉ piece) :
    linePieces piece = if piece = [] then [] else [piece] := by
  rw [linePieces, List.splitOn_eq_singleton hfree]
  simp

/-- A line feed ends a piece. -/
theorem linePieces_append_lineFeed {piece : Text} (hfree : lineFeed ∉ piece)
    (rest : Text) :
    linePieces (piece ++ lineFeed :: rest) = piece :: linePieces rest := by
  have hrest := List.splitOn_ne_nil lineFeed rest
  rw [linePieces, linePieces, List.splitOn_append_cons_self_of_not_mem hfree,
    List.dropLast_cons_of_ne_nil hrest]
  rcases List.exists_cons_of_ne_nil hrest with ⟨first, others, hsplit⟩
  rw [hsplit, List.getLast?_cons_cons]
  split <;> rfl

/-- The lines of a text without their ends are its pieces between line feeds without a
carriage return at their end, and nothing is read behind a last line feed. -/
theorem map_trimLineEnd_lines (text : Text) :
    text.lines.map trimLineEnd = (linePieces text).map (chop carriageReturn) := by
  induction text using pieceInduction lineFeed with
  | last piece hfree =>
      rw [lines_piece hfree, linePieces_piece hfree]
      split
      · rfl
      · rw [List.map_singleton, List.map_singleton, trimLineEnd_piece hfree]
  | next piece rest hfree ih =>
      rw [lines_append_lineFeed hfree, linePieces_append_lineFeed hfree, List.map_cons,
        List.map_cons, trimLineEnd_concat, ih]

theorem bareLines_eq_map (text : Text) : text.bareLines = text.lines.map trimLineEnd :=
  (map_trimLineEnd_lines text).symm

end Text

end PhraseLedger
