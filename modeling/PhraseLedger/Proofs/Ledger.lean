import PhraseLedger.Dispatch.Document
import PhraseLedger.Proofs.Lines
import PhraseLedger.Proofs.Matches
import PhraseLedger.Proofs.Scan
import Mathlib.Data.Finset.Basic

/-!
# The plain ledger

A plain ledger reads the same inputs as the engine but keeps no history: it holds the set
of the phrases that are members now, and answers every query as soon as its line is read.
It says in the simplest way what the output of the engine means.

Main definitions:

- Definition {lit}`Ledger.answerLine`: the answer line of a document.
- Definition {lit}`Ledger.step`: what a command does.
- Definition {lit}`Ledger.run`: the output for a whole input.

Main results:

- Theorem {lit}`Ledger.resultLine_eq_answerLine`: an index with the same members gives the same
  answer line.
-/

namespace PhraseLedger

/-- The state of a plain ledger. -/
structure Ledger where
  /-- The word lists that are members now. -/
  members : Finset (List Text)
  /-- The answer lines that the next flush writes. -/
  queue : List Text
  output : Text

namespace Ledger

/-- The ledger at the beginning of a run. -/
def empty : Ledger := ⟨∅, [], []⟩

/-- The texts of the members in a document: of all runs of consecutive words, by their
first word and then by their last, those whose word list is a member. -/
def found (members : Finset (List Text)) (document : Text) : List Text :=
  ((Text.runs (Text.placePieces 0 (document.splitOn Text.space))).filter
      fun run => run.map Word.bytes ∈ members).map
    fun run => document.slice (Text.cover run).start (Text.cover run).stop

/-- The answer line of a document: the texts of its members without repetitions. -/
def answerLine (members : Finset (List Text)) (document : Text) : Text :=
  match (found members document).eraseDups with
  | [] => Text.ofString "-1\n"
  | texts => (Text.ofString "|").intercalate texts ++ Text.ofString "\n"

/-- Takes a line of the bulk load; a line without words changes nothing. -/
def load (ledger : Ledger) (line : Text) : Ledger :=
  if line.wordList = [] then ledger
  else { ledger with members := insert line.wordList ledger.members }

/-- Announces the end of the bulk load. -/
def ready (ledger : Ledger) : Ledger :=
  { ledger with output := ledger.output ++ Text.ofString "R\n" }

/-- Takes a line of the workload, or nothing if it is no command. -/
def step (ledger : Ledger) (line : Text) : Option Ledger :=
  match line with
  -- The bytes of the letters `A`, `D`, `Q` and `F`, and of the space behind the first three.
  | 65 :: 32 :: phrase =>
    some { ledger with members := insert (Text.wordList phrase) ledger.members }
  | 68 :: 32 :: phrase =>
    some { ledger with members := ledger.members.erase (Text.wordList phrase) }
  | 81 :: 32 :: document =>
    some { ledger with queue := ledger.queue ++ [answerLine ledger.members document] }
  | [70] => some { ledger with queue := [], output := ledger.output ++ ledger.queue.flatten }
  | _ => none

/-- The line that ends the bulk load. -/
def marker : Text := Text.ofString "S"

/-- Takes the lines of an input, or nothing if the bulk load does not end or a later line
is no command. -/
def runLines (ledger : Ledger) (lines : List Text) : Option Ledger :=
  match lines.dropWhile (· ≠ marker) with
  | [] => none
  | _ :: commands =>
    commands.foldlM step ((lines.takeWhile (· ≠ marker)).foldl load ledger).ready

/-- The output for an input, whose lines end with a line feed that may follow a carriage
return.  What is left in the queue at the end is not written. -/
def run (input : Text) : Option Text :=
  (runLines empty (input.linePieces.map (Text.chop Text.carriageReturn))).map output

/-! ## Lines of an input -/

theorem runLines_marker (ledger : Ledger) (commands : List Text) :
    runLines ledger (marker :: commands) = commands.foldlM step ledger.ready := by
  simp [runLines]

theorem runLines_cons {line : Text} (hline : line ≠ marker) (ledger : Ledger)
    (lines : List Text) :
    runLines ledger (line :: lines) = runLines (ledger.load line) lines := by
  simp [runLines, hline]

/-! ## Answers -/

/-- A scan of an index with the same members finds the same texts. -/
theorem map_term_matchesIn {index : Index} {members : Finset (List Text)} {opIndex : Nat}
    (hmembers : ∀ phrase, Text.IsPhrase phrase → phrase ≠ [] →
      index.memberAt phrase opIndex = decide (phrase ∈ members)) (document : Text) :
    (index.matchesIn document 0 opIndex).map Match.term = found members document := by
  rw [Index.matchesIn_of_memberAt index hmembers, List.map_map, found, Text.words,
    Text.wordsFrom_eq_placePieces]
  rfl

/-- An index with the same members gives the same answer line. -/
theorem resultLine_eq_answerLine {index : Index} {members : Finset (List Text)}
    {opIndex : Nat}
    (hmembers : ∀ phrase, Text.IsPhrase phrase → phrase ≠ [] →
      index.memberAt phrase opIndex = decide (phrase ∈ members)) (document : Text) :
    Match.resultLine (Match.distinct (index.matchesIn document 0 opIndex)) =
      answerLine members document := by
  rw [Match.resultLine_distinct, map_term_matchesIn hmembers, answerLine]
  rfl

end Ledger

end PhraseLedger
