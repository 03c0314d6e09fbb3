import PhraseLedger.Dispatch.Document
import PhraseLedger.Sink

/-!
# Answering a batch of queries

The queries of a batch are cut into slices, and each slice is answered by a job of its
own that collects the answer lines of its queries.  When all jobs have ended, their
lines are written in the order of the slices.

Main definitions:

- Definition {lit}`Batch.answerLines`: the answer lines of a slice.
- Definition {lit}`Batch.answerTo`: answers a batch and writes the answers.
-/

namespace PhraseLedger

namespace Batch

variable {σ : Type}

/-- The answer lines of queries, answered one after the other. -/
def answerLines (crew : Crew σ) (index : Index) (settings : Settings) :
    List Query → Pool σ → Except Failure Text × Pool σ
  | [], pool => (.ok [], pool)
  | query :: rest, pool =>
    match query.answer crew index settings pool with
    | (.error failure, pool) => (.error failure, pool)
    | (.ok found, pool) =>
      match answerLines crew index settings rest pool with
      | (.error failure, pool) => (.error failure, pool)
      | (.ok lines, pool) => (.ok (Match.resultLine found ++ lines), pool)

/-- The job that answers a slice.  An error is its result; an abort leaves it without
one. -/
def sliceJob (crew : Crew σ) (index : Index) (settings : Settings) (queries : List Query) :
    Job σ (Except Error Text) := fun pool =>
  match answerLines crew index settings queries pool with
  | (.ok lines, pool) => (some (.ok lines), pool)
  | (.error (.error error), pool) => (some (.error error), pool)
  | (.error .abort, pool) => (none, pool)

/-- What the job of a slice is called in errors. -/
def sliceName (i : Nat) : String :=
  "query pipeline " ++ toString i

/-- Writes the lines of the slices from number `i` on.  The first slice that has none
decides the failure. -/
def writeFrom (i : Nat) : List (Option (Except Error Text)) → Sink → Except Error Unit × Sink
  | [], sink => (.ok (), sink)
  | none :: _, sink => (.error (.workerLost (sliceName i)), sink)
  | some (.error error) :: _, sink => (.error error, sink)
  | some (.ok lines) :: rest, sink =>
    match sink.write lines with
    | (.error source, sink) => (.error (.io "writing query results" source), sink)
    | (.ok (), sink) => writeFrom (i + 1) rest sink

/-- Writes the lines of all slices and flushes the sink. -/
def deliver (results : List (Option (Except Error Text))) (sink : Sink) :
    Except Error Unit × Sink :=
  match writeFrom 0 results sink with
  | (.error error, sink) => (.error error, sink)
  | (.ok (), sink) =>
    match sink.flush with
    | (.error source, sink) => (.error (.io "flushing query results" source), sink)
    | (.ok (), sink) => (.ok (), sink)

/-- Answers a batch and writes one line for each query, in the order of the queries.
Nothing is written before all slices are answered, and nothing at all, not even a
flush, for a batch without slices. -/
def answerTo (crew : Crew σ) (index : Index) (settings : Settings) (queries : List Query)
    (pool : Pool σ) (sink : Sink) : Except Failure Unit × Pool σ × Sink :=
  let slices := Slice.split queries settings.parallelism
  if slices.isEmpty then (.ok (), pool, sink)
  else
    match Pool.fanOut crew (slices.map (sliceJob crew index settings)) pool with
    | (none, pool) => (.error .abort, pool, sink)
    | (some results, pool) =>
      match deliver results sink with
      | (.error error, sink) => (.error (.error error), pool, sink)
      | (.ok (), sink) => (.ok (), pool, sink)

end Batch

end PhraseLedger
