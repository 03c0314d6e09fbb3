import PhraseLedger.Session.Basic

/-!
# Calls of a session

Everything that can be done to a session is a call.  Calls may come in any order, and
the session goes on whatever a call returns.

Main definitions:

- Definition {lit}`Session.perform`: performs one call.
- Definition {lit}`Session.performAll`: performs calls one after the other.
-/

namespace PhraseLedger

/-- Something that is done to a session. -/
inductive Call where
  /-- Takes a line of the input as the current phase wants it. -/
  | consumeLine (line : Text)
  /-- Adds a phrase of the bulk load. -/
  | loadPhrase (text : Text)
  /-- Ends the bulk load. -/
  | openWorkload
  /-- Carries out the command of a line. -/
  | applyLine (line : Text)
  /-- Answers the queries in the queue. -/
  | flush
deriving DecidableEq, Repr

namespace Session

variable {σ : Type}

/-- Performs one call. -/
def perform (crew : Crew σ) (session : Session σ) : Call → Except Failure Unit × Session σ
  | .consumeLine line => session.consumeLine crew line
  | .loadPhrase text => session.loadPhrase text
  | .openWorkload => session.openWorkload
  | .applyLine line => session.applyLine crew line
  | .flush => session.flush crew

/-- Performs calls one after the other and returns how each of them ended. -/
def performAll (crew : Crew σ) :
    Session σ → List Call → List (Except Failure Unit) × Session σ
  | session, [] => ([], session)
  | session, call :: rest =>
    let (result, session) := session.perform crew call
    let (results, session) := performAll crew session rest
    (result :: results, session)

end Session

end PhraseLedger
