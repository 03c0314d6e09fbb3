/-!
# Handing out jobs

A thread that has jobs to do offers them to a pool.  The pool either hands a job to an
idle worker or hands it back, and then the thread runs the job itself.  Which of the
two happens is decided by the crew, the workers behind the pool; nothing in this
module depends on how it decides.

A job borrows the index while it exists and returns it before its result can be
received.  A job can abort its thread: then its result is lost, and so is the worker
that ran it, or the thread that ran it itself.

Main definitions:

- Definition {lit}`Pool.trySubmit`: offers a job to the crew.
- Definition {lit}`Pool.submitOrRun`: runs a job that is handed back.
- Definition {lit}`Pool.fanOut`: offers all jobs but the last, which is run at once.
-/

namespace PhraseLedger

/-- The workers behind a pool, as a thread sees them that has a job to hand out.  `σ`
is the state of the workers. -/
structure Crew (σ : Type) where
  /-- Reserves a worker, or tells that none takes a job. -/
  claim : σ → Option Nat × σ
  /-- The reserved worker completed its job. -/
  complete : Nat → σ → σ
  /-- The job of the reserved worker aborted its thread. -/
  bury : Nat → σ → σ

/-- A pool: its workers, and how many jobs went where. -/
structure Pool (σ : Type) where
  workers : σ
  /-- Number of jobs handed to a worker. -/
  dispatched : Nat
  /-- Number of jobs run by the thread that had them. -/
  inline : Nat
  /-- Number of jobs that borrow the index at present. -/
  borrowed : Nat

/-- A job: its result, or nothing if it aborts its thread, and the pool after it. -/
abbrev Job (σ α : Type) := Pool σ → Option α × Pool σ

/-- What becomes of a job that is offered to a crew. -/
inductive Submission (α : Type) where
  /-- A worker took the job; its result is received later, or lost. -/
  | accepted (result : Option α)
  /-- No worker took the job. -/
  | refused

namespace Pool

variable {σ α : Type}

/-- A pool that has not seen a job. -/
def start (workers : σ) : Pool σ := ⟨workers, 0, 0, 0⟩

/-- Number of jobs that were run. -/
def jobs (pool : Pool σ) : Nat :=
  pool.dispatched + pool.inline

/-- Whether no job borrows the index. -/
def isSettled (pool : Pool σ) : Bool :=
  pool.borrowed == 0

/-- A job comes into being and borrows the index. -/
def lend (pool : Pool σ) : Pool σ :=
  { pool with borrowed := pool.borrowed + 1 }

/-- A job returns the index. -/
def giveBack (pool : Pool σ) : Pool σ :=
  { pool with borrowed := pool.borrowed - 1 }

/-- Runs a job, which returns the index at its end, however it ends. -/
def perform (job : Job σ α) (pool : Pool σ) : Option α × Pool σ :=
  let (result, pool) := job pool
  (result, pool.giveBack)

/-- Offers a job to the crew. -/
def trySubmit (crew : Crew σ) (job : Job σ α) (pool : Pool σ) : Submission α × Pool σ :=
  match crew.claim pool.workers with
  | (none, workers) => (.refused, { pool with workers := workers })
  | (some slot, workers) =>
    let (result, pool) :=
      perform job { pool with workers := workers, dispatched := pool.dispatched + 1 }
    let done := if result.isSome then crew.complete slot else crew.bury slot
    (.accepted result, { pool with workers := done pool.workers })

/-- Runs a job on the thread that has it. -/
def runInline (job : Job σ α) (pool : Pool σ) : Option α × Pool σ :=
  perform job { pool with inline := pool.inline + 1 }

/-- Offers a job to the crew and runs it if it is handed back.  The inner result is
missing if a worker lost it, the outer one if the job aborted the thread itself. -/
def submitOrRun (crew : Crew σ) (job : Job σ α) (pool : Pool σ) :
    Option (Option α) × Pool σ :=
  match trySubmit crew job pool with
  | (.accepted result, pool) => (some result, pool)
  | (.refused, pool) =>
    match runInline job pool with
    | (none, pool) => (none, pool)
    | (some result, pool) => (some (some result), pool)

/-- Offers jobs to the crew one after the other, but runs the last one on the thread
that has them, and then collects the results in the order of the jobs.  Nothing is
collected if a job aborted the thread. -/
def fanOut (crew : Crew σ) : List (Job σ α) → Pool σ → Option (List (Option α)) × Pool σ
  | [], pool => (some [], pool)
  | [last], pool =>
    match runInline last pool.lend with
    | (none, pool) => (none, pool)
    | (some result, pool) => (some [some result], pool)
  | job :: next :: rest, pool =>
    match submitOrRun crew job pool.lend with
    | (none, pool) => (none, pool)
    | (some result, pool) =>
      match fanOut crew (next :: rest) pool with
      | (none, pool) => (none, pool)
      | (some results, pool) => (some (result :: results), pool)

end Pool

end PhraseLedger
