import PhraseLedger.Dispatch.Batch
import PhraseLedger.Session.Command
import PhraseLedger.Session.Timing

/-!
# Sessions

A session owns the index, the pool and the output of one run of the engine.  It starts
with the bulk load, in which every line is a phrase that is a member from the
beginning, and goes on with the workload, in which every line is a command.  Additions
and removals take effect at once; queries are queued with the operation index of their
line and answered together at the next flush.

Every call returns how it ended together with the session after it, and the session
can be used further however a call ended.  The stopwatch of the bulk load runs from the
first phrase to the end of the bulk load; additions and removals are measured by another
one, and flushes by a third.

Main definitions:

- Definition {lit}`Session.start`: the session at the beginning of a run.
- Definition {lit}`Session.loadPhrase`, {lit}`Session.openWorkload`: the bulk load.
- Definition {lit}`Session.applyLine`, {lit}`Session.flush`: the workload.
- Definition {lit}`Session.consumeLine`: the call that a line of the input makes.
-/

namespace PhraseLedger

/-- The two parts of a run. -/
inductive Phase where
  | bulkLoad
  | workload
deriving DecidableEq, Repr

/-- How often things happened in a session. -/
structure Tally where
  /-- Phrases added by the bulk load. -/
  loaded : Nat
  /-- Commands that add a phrase. -/
  adds : Nat
  /-- Commands that remove a phrase. -/
  removes : Nat
  /-- Commands that queue a query. -/
  queries : Nat
  /-- Flushes, however they ended. -/
  flushes : Nat
deriving DecidableEq, Repr

namespace Tally

/-- Nothing happened yet. -/
def zero : Tally := ⟨0, 0, 0, 0, 0⟩

end Tally

/-- One run of the engine. -/
structure Session (σ : Type) where
  settings : Settings
  index : Index
  pool : Pool σ
  sink : Sink
  /-- The queries that the next flush answers, in the order of their lines. -/
  pending : Array Query
  /-- Number of workload commands so far. -/
  opIndex : Nat
  /-- Number of lines so far. -/
  lineNumber : Nat
  phase : Phase
  tally : Tally
  timing : Timing

namespace Session

variable {σ : Type}

/-- The operation index of the phrases of the bulk load. -/
def bulkOpIndex : Nat := 0

/-- The line that ends the bulk load, `S`. -/
def startMarker : Text := [83]

/-- What is written when the bulk load has ended, `R` and a line end. -/
def readyLine : Text := [82, 10]

/-- A session at its beginning; the settings must be valid. -/
def start (settings : Settings) (pool : Pool σ) (sink : Sink) :
    Except Error (Session σ) :=
  settings.validate.map fun _ =>
    { settings := settings
      index := .empty
      pool := pool
      sink := sink
      pending := #[]
      opIndex := bulkOpIndex
      lineNumber := 0
      phase := .bulkLoad
      tally := .zero
      timing := .new }

/-- The error of an operation that is not allowed now. -/
def misuse (name : String) : Failure :=
  .error (.invalidOperation name)

/-- The error of a change to the index while a job still borrows it. -/
def indexShared : Failure :=
  misuse "index mutation while query jobs still hold the index"

/-- Counts a line. -/
def nextLine (session : Session σ) : Session σ :=
  { session with lineNumber := session.lineNumber + 1 }

/-- Starts a stopwatch. -/
def startWatch (activity : Activity) (session : Session σ) : Session σ :=
  { session with timing := session.timing.start activity }

/-- Stops a stopwatch. -/
def stopWatch (activity : Activity) (session : Session σ) : Session σ :=
  { session with timing := session.timing.stop activity }

/-! ## Bulk load -/

/-- Adds a phrase of the bulk load; a text without words adds nothing. -/
def loadPhrase (session : Session σ) (text : Text) : Except Failure Unit × Session σ :=
  let session := session.nextLine
  if session.phase ≠ .bulkLoad then (.error (misuse "load_ngram after the bulk load"), session)
  else
    let session := session.startWatch .bulkLoad
    if !session.pool.isSettled then (.error indexShared, session)
    else
      match session.index.add? text bulkOpIndex with
      | none => (.ok (), session)
      | some index =>
        (.ok (), { session with
          index := index
          tally := { session.tally with loaded := session.tally.loaded + 1 } })

/-- Ends the bulk load and announces it on the output. -/
def openWorkload (session : Session σ) : Except Failure Unit × Session σ :=
  let session := session.nextLine
  if session.phase ≠ .bulkLoad then (.error (misuse "finish_bulk_load called twice"), session)
  else
    let session := { session.stopWatch .bulkLoad with phase := .workload }
    match session.sink.write readyLine with
    | (.error source, sink) =>
      (.error (.error (.io "writing ready line" source)), { session with sink := sink })
    | (.ok (), sink) =>
      match sink.flush with
      | (.error source, sink) =>
        (.error (.error (.io "writing ready line" source)), { session with sink := sink })
      | (.ok (), sink) => (.ok (), { session with sink := sink })

/-! ## Workload -/

/-- Answers the queries in the queue.  The queue is empty afterwards, even if the
answers cannot be written.  A flush that aborts the thread neither stops its stopwatch
nor is it counted. -/
def flush (crew : Crew σ) (session : Session σ) : Except Failure Unit × Session σ :=
  let (result, pool, sink) := Batch.answerTo crew session.index session.settings
    session.pending.toList session.pool session.sink
  let session := { session.startWatch .flushes with pool := pool, sink := sink, pending := #[] }
  match result with
  | .error .abort => (.error .abort, session)
  | result =>
    (result, { session.stopWatch .flushes with
      tally := { session.tally with flushes := session.tally.flushes + 1 } })

/-- Changes the index and counts the change. -/
def mutate (change : Index → Index) (count : Tally → Tally) (session : Session σ) :
    Except Failure Unit × Session σ :=
  let session := session.startWatch .mutations
  if !session.pool.isSettled then (.error indexShared, session)
  else
    let session := { session with index := change session.index }
    (.ok (), { session.stopWatch .mutations with tally := count session.tally })

/-- Carries out a command under the current operation index. -/
def execute (crew : Crew σ) (session : Session σ) (command : Command) :
    Except Failure Unit × Session σ :=
  match command with
  | .add phrase =>
    session.mutate (·.add phrase session.opIndex)
      fun tally => { tally with adds := tally.adds + 1 }
  | .remove phrase =>
    session.mutate (·.remove phrase session.opIndex)
      fun tally => { tally with removes := tally.removes + 1 }
  | .query document =>
    (.ok (), { session with
      pending := session.pending.push ⟨document, session.opIndex⟩
      tally := { session.tally with queries := session.tally.queries + 1 } })
  | .flush => session.flush crew

/-- Carries out the command of a line.  A line that is no command leaves the operation
index as it is. -/
def applyLine (crew : Crew σ) (session : Session σ) (line : Text) :
    Except Failure Unit × Session σ :=
  let session := session.nextLine
  if session.phase ≠ .workload then
    (.error (misuse "apply_line before the bulk load finished"), session)
  else
    match Command.parse line with
    | .error fault =>
      (.error (.error (.malformedLine session.lineNumber fault.reason)), session)
    | .ok command =>
      { session with opIndex := session.opIndex + 1 }.execute crew command

/-! ## Lines of the input -/

/-- Takes a line of the input, without its end, as the current phase wants it. -/
def consumeLine (crew : Crew σ) (session : Session σ) (line : Text) :
    Except Failure Unit × Session σ :=
  match session.phase with
  | .bulkLoad => if line = startMarker then session.openWorkload else session.loadPhrase line
  | .workload => session.applyLine crew line

end Session

end PhraseLedger
