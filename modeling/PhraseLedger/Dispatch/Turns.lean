import PhraseLedger.Dispatch.Workers

/-!
# Turns at a pool

A thread that uses a pool by itself, job after job, takes turns at it.  In each turn
it makes a job and hands it over, and the turn ends when all living workers are idle
again, so at the beginning of the next turn a slot is free exactly when its worker is
alive.  After the pool was shut down nobody serves, and a turn ends at once.

Main definitions:

- Definition {lit}`Pool.turn`: hands a job over and waits until the pool is at rest.
- Definition {lit}`Pool.shutDown`: stops the workers.
-/

namespace PhraseLedger

/-- Who may run a job that is handed over. -/
inductive Handover where
  /-- A worker only; the job is discarded if none takes it. -/
  | toWorker
  /-- A worker, or else the thread that has the job. -/
  | toAnyone
  /-- The thread that has the job. -/
  | toSelf
deriving DecidableEq, Repr

/-- What became of a job that was handed over. -/
inductive Fate (α : Type) where
  /-- It was taken on; its result is missing if it aborted the worker that ran it. -/
  | taken (result : Option α)
  /-- No worker took it. -/
  | refused
  /-- The thread that had it ran it by choice. -/
  | ranHere (result : α)
  /-- It aborted the thread that had it. -/
  | aborted
deriving DecidableEq, Repr

namespace Pool

variable {σ α : Type}

/-- Hands a job over that was just made. -/
def handOver (crew : Crew σ) (handover : Handover) (job : Job σ α) (pool : Pool σ) :
    Fate α × Pool σ :=
  match handover with
  | .toWorker =>
    match trySubmit crew job pool.lend with
    | (.accepted result, pool) => (.taken result, pool)
    | (.refused, pool) => (.refused, pool.giveBack)
  | .toAnyone =>
    match submitOrRun crew job pool.lend with
    | (some result, pool) => (.taken result, pool)
    | (none, pool) => (.aborted, pool)
  | .toSelf =>
    match runInline job pool.lend with
    | (some result, pool) => (.ranHere result, pool)
    | (none, pool) => (.aborted, pool)

/-- Waits until every living worker is idle. -/
def rest (pool : Pool Workers) : Pool Workers :=
  if pool.workers.stopped then pool else { pool with workers := pool.workers.settle }

/-- Hands a job over and waits until the pool is at rest. -/
def turn (handover : Handover) (job : Job Workers α) (pool : Pool Workers) :
    Fate α × Pool Workers :=
  let (fate, pool) := pool.handOver Workers.crew handover job
  (fate, pool.rest)

/-- Stops the workers and returns what they report: the slot of each worker that was
not aborted and the number of its jobs. -/
def shutDown (pool : Pool Workers) : List (Nat × Nat) × Pool Workers :=
  let (reports, workers) := pool.workers.stop
  (reports, { pool with workers := workers })

end Pool

end PhraseLedger
