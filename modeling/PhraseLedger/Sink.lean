import PhraseLedger.Text.Words

/-!
# Sinks

The output of the engine goes to a sink.  A sink can have room for a limited number of
bytes, of which a write that does not fit takes as many as it can, and can refuse to
be flushed after a limited number of times.

Main definitions:

- Definition {lit}`Sink.write`: writes all bytes of a text.
- Definition {lit}`Sink.flush`: passes on what was written.
- Definition {lit}`Sink.drain`: takes out what was written.
-/

namespace PhraseLedger

/-- A sink for output. -/
structure Sink where
  /-- Number of bytes that still fit, or nothing if there is no limit. -/
  room : Option Nat
  /-- Number of flushes that still succeed, or nothing if there is no limit. -/
  flushesLeft : Option Nat
  /-- The bytes taken so far. -/
  taken : Text
deriving DecidableEq, Repr

namespace Sink

/-- A sink without limits. -/
def unlimited : Sink := ⟨none, none, []⟩

/-- A sink with the given limits. -/
def limited (room flushes : Option Nat) : Sink := ⟨room, flushes, []⟩

/-- The wording of a write that does not fit. -/
def fullMessage : String := "sink full"

/-- The wording of a flush that is refused. -/
def refusedMessage : String := "flush refused"

/-- Writes all bytes of a text.  If they do not fit, the sink takes those that do and
reports the failure. -/
def write (sink : Sink) (text : Text) : Except String Unit × Sink :=
  match sink.room with
  | none => (.ok (), { sink with taken := sink.taken ++ text })
  | some room =>
    let after : Sink :=
      { sink with room := some (room - text.length), taken := sink.taken ++ text.take room }
    (if text.length ≤ room then .ok () else .error fullMessage, after)

/-- Passes on what was written. -/
def flush (sink : Sink) : Except String Unit × Sink :=
  match sink.flushesLeft with
  | none => (.ok (), sink)
  | some 0 => (.error refusedMessage, sink)
  | some (left + 1) => (.ok (), { sink with flushesLeft := some left })

/-- Takes the bytes out of a sink, which keeps its limits. -/
def drain (sink : Sink) : Text × Sink :=
  (sink.taken, { sink with taken := [] })

end Sink

end PhraseLedger
