import PhraseLedger.Text.CharQuote
import PhraseLedger.Text.Utf8

/-!
# Workload lines

After the bulk load, every line of the input is a command:

- {lit}`A` and a phrase adds the phrase,
- {lit}`D` and a phrase removes it,
- {lit}`Q` and a document queues a query,
- {lit}`F` alone answers the queries in the queue.

A single space stands between the letter and what belongs to it.

Main definitions:

- Definition {lit}`Command.parse`: the command of a line.
- Definition {lit}`LineFault.reason`: why a line is not a command.
-/

namespace PhraseLedger

/-- A command of the workload. -/
inductive Command where
  | add (phrase : Text)
  | remove (phrase : Text)
  | query (document : Text)
  | flush
deriving DecidableEq, Repr

/-- Why a line is not a command. -/
inductive LineFault where
  /-- The line is empty. -/
  | emptyLine
  /-- Something follows the letter of a flush. -/
  | flushNotAlone
  /-- No space follows the letter. -/
  | spaceExpected (letter : Char)
  /-- No command starts with this character. -/
  | unknownCommand (first : Char)
deriving DecidableEq, Repr

namespace LineFault

/-- The wording of a fault. -/
def reason : LineFault → String
  | .emptyLine => "empty workload line"
  | .flushNotAlone => "flush marker must stand alone"
  | .spaceExpected letter => "expected a space after '" ++ letter.toString ++ "'"
  | .unknownCommand first => "unknown command " ++ CharQuote.quoted first

end LineFault

namespace Command

/-- What stands behind the letter of a command and a space. -/
def payload (letter : Char) (rest : Text) : Except LineFault Text :=
  match rest with
  | [] => .error (.spaceExpected letter)
  | byte :: payload =>
    if byte = Text.space then .ok payload else .error (.spaceExpected letter)

/-- The command of a line that has no line end any more. -/
def parse (line : Text) : Except LineFault Command :=
  match line with
  | [] => .error .emptyLine
  | letter :: rest =>
    if letter = 70 then if rest.isEmpty then .ok .flush else .error .flushNotAlone
    else if letter = 65 then (payload 'A' rest).map .add
    else if letter = 68 then (payload 'D' rest).map .remove
    else if letter = 81 then (payload 'Q' rest).map .query
    else .error (.unknownCommand (Text.firstChar line))

end Command

end PhraseLedger
