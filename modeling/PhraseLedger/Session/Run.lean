import PhraseLedger.Session.Report
import PhraseLedger.Text.Lines

/-!
# Running a session over an input

A run takes the lines of an input one by one and stops at the first one that fails.
An input that ends during the bulk load is an error; one that ends during the workload
ends the session.

Main definitions:

- Definition {lit}`Session.consumeRaw`: takes a line as it stands in the input.
- Definition {lit}`Session.run`: takes a whole input.
-/

namespace PhraseLedger

/-- How a run ended. -/
structure Outcome where
  result : Except Failure Summary
  /-- The output, with all that it took. -/
  sink : Sink
  log : List LogLine

namespace Session

variable {σ : Type}

/-- The wording of an input that is not UTF-8. -/
def notUtf8Message : String := "stream did not contain valid UTF-8"

/-- Takes a line as it stands in the input, with its end. -/
def consumeRaw (crew : Crew σ) (session : Session σ) (line : Text) :
    Except Failure Unit × Session σ :=
  if line.isUtf8 then session.consumeLine crew line.trimLineEnd
  else (.error (.error (.io "reading input" notUtf8Message)), session)

/-- Takes lines as they stand in the input, up to the first one that fails. -/
def consumeAll (crew : Crew σ) : List Text → Session σ → Except Failure Unit × Session σ
  | [], session => (.ok (), session)
  | line :: rest, session =>
    match session.consumeRaw crew line with
    | (.error failure, session) => (.error failure, session)
    | (.ok (), session) => consumeAll crew rest session

/-- Ends a run whose input has ended. -/
def close (session : Session σ) : Outcome :=
  match session.phase with
  | .bulkLoad =>
    ⟨.error (.error (.unexpectedEnd "input ended before the 'S' marker")), session.sink, []⟩
  | .workload =>
    let (summary, log, sink) := session.finish
    ⟨.ok summary, sink, log⟩

/-- Takes a whole input. -/
def run (crew : Crew σ) (session : Session σ) (input : Text) : Outcome :=
  match session.consumeAll crew input.lines with
  | (.error failure, session) => ⟨.error failure, session.sink, []⟩
  | (.ok (), session) => session.close

end Session

end PhraseLedger
