import PhraseLedger.Session.Basic

/-!
# The end of a session

At its end a session gives up what is left in its queue, passes its output on once
more, and sums up what happened in it.

Main definitions:

- Definition {lit}`Session.finish`: ends a session.
- Definition {lit}`Summary.report`: the final report of a session.
-/

namespace PhraseLedger

/-- How much a log line matters. -/
inductive Level where
  | error
  | warn
  | info
deriving DecidableEq, Repr

namespace Level

/-- The name of a level. -/
def name : Level → String
  | .error => "ERROR"
  | .warn => "WARN"
  | .info => "INFO"

end Level

/-- A line of the log. -/
structure LogLine where
  level : Level
  text : String
deriving DecidableEq, Repr

/-- What a session comes to. -/
structure Summary where
  tally : Tally
  /-- Queries that were left in the queue. -/
  dropped : Nat
  trie : TrieStats
  workers : Nat
  /-- Jobs handed to a worker. -/
  dispatched : Nat
  /-- Jobs run by the thread that had them. -/
  inline : Nat
  timing : Timing
deriving DecidableEq, Repr

namespace Summary

/-- Number of jobs. -/
def jobs (summary : Summary) : Nat :=
  summary.dispatched + summary.inline

/-- The report on the bulk load, the commands and the trie. -/
def workReport (summary : Summary) (durations : Durations) : List LogLine :=
  [ ⟨.info, "bulk load: " ++ toString summary.tally.loaded ++ " n-grams in "
      ++ durations.bulkLoad⟩,
    ⟨.info, "mutations: " ++ toString summary.tally.adds ++ " adds, "
      ++ toString summary.tally.removes ++ " removes in " ++ durations.mutations⟩,
    ⟨.info, "queries: " ++ toString summary.tally.queries ++ " in "
      ++ toString summary.tally.flushes ++ " flushes, " ++ durations.flushes
      ++ " (" ++ toString summary.dropped ++ " dropped at end of input)"⟩,
    ⟨.info, "trie: " ++ toString summary.trie.nodes ++ " nodes, "
      ++ toString summary.trie.directNodes ++ " direct-indexed"⟩ ]

/-- The report on the pool. -/
def poolReport (summary : Summary) : LogLine :=
  ⟨.info, "pool: " ++ toString summary.workers ++ " workers, "
    ++ toString summary.dispatched ++ " jobs dispatched, "
    ++ toString summary.inline ++ " run inline"⟩

/-- The final report of a session. -/
def report (summary : Summary) (durations : Durations) : List LogLine :=
  summary.workReport durations ++ [summary.poolReport]

end Summary

namespace Session

variable {σ : Type}

/-- The warning about queries left in the queue, if there are any. -/
def dropWarning (session : Session σ) : List LogLine :=
  if session.pending.size = 0 then []
  else
    [⟨.warn, "input ended with " ++ toString session.pending.size
      ++ " queries not followed by a flush; dropping them"⟩]

/-- What a session comes to if it ends now. -/
def summary (session : Session σ) : Summary :=
  { tally := session.tally
    dropped := session.pending.size
    trie := session.index.stats
    workers := session.settings.poolSize
    dispatched := session.pool.dispatched
    inline := session.pool.inline
    timing := session.timing.stop .bulkLoad }

/-- Ends a session: what it comes to, its warnings, and its sink. -/
def finish (session : Session σ) : Summary × List LogLine × Sink :=
  let (flushed, sink) := session.sink.flush
  let flushWarning : List LogLine :=
    match flushed with
    | .ok () => []
    | .error source => [⟨.warn, "failed to flush output: " ++ source⟩]
  (session.summary, session.dropWarning ++ flushWarning, sink)

end Session

end PhraseLedger
