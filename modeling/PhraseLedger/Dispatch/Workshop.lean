import PhraseLedger.Dispatch.Batch
import PhraseLedger.OneShot.Bank

/-!
# Threads at work

A thread that hands out jobs learns nothing of what happens to them until it receives their
results.  This module says what happens meanwhile: the thread that answers a batch, the driver,
and the workers take steps one at a time and in any order.  A step makes a job, claims a slot,
puts a job on the desk of a worker, takes it from there, runs it up to the point where it hands
out jobs itself, gives the index back, delivers a result, receives one, or frees a slot.

Nothing is said about the choice of a slot: a claim may take any free slot and may be refused
at any time.  Neither is anything said about a job that aborts its thread: it stays where it is.

Main definitions:

- Definition {lit}`Plan`: what is left to do of a job.
- Definition {lit}`Batch.slicePlan`: the job that answers a slice.
- Definition {lit}`Frame.advance`: a step of a thread that has something to do.
- Definition {lit}`Workshop.step`: a step of any thread.
- Definition {lit}`Batch.answerIn`: answers a batch by the steps of a list.
-/

namespace PhraseLedger

/-! ## Jobs -/

/-- What is left to do of a job. -/
inductive Plan (α : Type) where
  /-- Nothing, it has its result. -/
  | yield (result : α)
  /-- It aborts its thread. -/
  | abort
  /-- It hands out jobs and goes on with their results, of which one that is lost is missing. -/
  | fork (jobs : List (Plan α)) (next : List (Option α) → Plan α)

/-- What the jobs of a batch result in. -/
inductive Product where
  /-- The matches in a fragment. -/
  | found (found : List Match)
  /-- The answer lines of a slice. -/
  | lines (outcome : Except Error Text)

namespace Product

/-- The matches, if a product is some. -/
def found? : Product → Option (List Match)
  | .found ofFragment => some ofFragment
  | .lines _ => none

/-- The answer lines, if a product is some. -/
def lines? : Product → Option (Except Error Text)
  | .found _ => none
  | .lines ofSlice => some ofSlice

end Product

namespace Query

/-- The job that scans one fragment. -/
def scanPlan (index : Index) (query : Query) (fragment : Span) : Plan Product :=
  match query.scanFragment index fragment with
  | none => .abort
  | some found => .yield (.found found)

end Query

namespace Batch

/-- The job that answers a slice, with the lines of the queries that are answered already. -/
def slicePlan (index : Index) (settings : Settings) : List Query → Text → Plan Product
  | [], lines => .yield (.lines (.ok lines))
  | query :: rest, lines =>
    if query.isSplit settings then
      match query.pieces? settings with
      | none => .abort
      | some pieces =>
        .fork (pieces.map (query.scanPlan index)) fun results =>
          match Query.collectFrom Query.scanName 0 (results.map (·.bind Product.found?)) with
          | .error error => .yield (.lines (.error error))
          | .ok found =>
            slicePlan index settings rest
              (lines ++ Match.resultLine (Match.distinct found.flatten))
    else
      slicePlan index settings rest
        (lines ++
          Match.resultLine (Match.distinct (index.matchesIn query.document 0 query.opIndex)))

end Batch

/-- A job that was made, with the number of the cell that its result is sent to.  It borrows
the index. -/
structure Task (α : Type) where
  plan : Plan α
  cell : Nat

/-! ## Threads -/

/-- How far a thread is with jobs that it hands out. -/
structure Fan (α : Type) where
  /-- The jobs that are not made yet. -/
  todo : List (Plan α)
  /-- The cells of jobs that were made but whose results were not received. -/
  out : List Nat
  /-- The results that were received; one that is lost is missing. -/
  results : List (Option α)

/-- For whom jobs are handed out. -/
inductive Client (α : Type) where
  /-- For the batch. -/
  | batch
  /-- For a job with a cell that goes on with the results.  It borrows the index meanwhile. -/
  | job (cell : Nat) (next : List (Option α) → Plan α)

/-- Something that a thread is at. -/
inductive Frame (α : Type) where
  /-- It offers a job to the workers. -/
  | offering (task : Task α)
  /-- It has claimed a slot for a job. -/
  | posting (task : Task α) (slot : Nat)
  /-- It runs a job. -/
  | running (task : Task α)
  /-- It hands out jobs and receives their results. -/
  | fanning (client : Client α) (fan : Fan α)
  /-- It sends the result of a job that has given the index back. -/
  | delivering (cell : Nat) (result : α)

/-- What a worker shares with those that have jobs for it. -/
structure Desk (α : Type) where
  /-- Whether the slot of the worker is claimed. -/
  claimed : Bool
  /-- Whether the worker takes jobs. -/
  serving : Bool
  /-- Whether the worker took a job and has not freed its slot since. -/
  engaged : Bool
  /-- The jobs that wait for the worker. -/
  queue : List (Task α)

namespace Desk

/-- Number of jobs that can wait for a worker. -/
def capacity : Nat := 4

/-- The desk of a worker that waits for jobs. -/
def idle {α : Type} : Desk α := ⟨false, true, false, []⟩

end Desk

/-- What the threads share. -/
structure Floor (α : Type) where
  /-- The pool, with the desk of each worker. -/
  pool : Pool (List (Desk α))
  /-- The cells of all jobs. -/
  cells : Bank α

namespace Floor

variable {α : Type}

/-- The number of the next cell. -/
def nextCell (floor : Floor α) : Nat :=
  floor.cells.cells.length

/-- A job is made, with a cell for its result. -/
def make (floor : Floor α) : Floor α :=
  ⟨floor.pool.lend, (floor.cells.perform .create).2⟩

/-- A job returns the index. -/
def giveBack (floor : Floor α) : Floor α :=
  { floor with pool := floor.pool.giveBack }

/-- A job is run by the thread that has it. -/
def countInline (floor : Floor α) : Floor α :=
  { floor with pool := { floor.pool with inline := floor.pool.inline + 1 } }

/-- A desk is replaced. -/
def setDesk (floor : Floor α) (slot : Nat) (desk : Desk α) : Floor α :=
  { floor with pool := { floor.pool with workers := floor.pool.workers.set slot desk } }

/-- A job is put behind those that wait for a worker. -/
def post (floor : Floor α) (slot : Nat) (desk : Desk α) (task : Task α) : Floor α :=
  let floor := floor.setDesk slot { desk with queue := desk.queue ++ [task] }
  { floor with pool := { floor.pool with dispatched := floor.pool.dispatched + 1 } }

end Floor

namespace ReceiveResult

variable {α : Type}

/-- What a receiver that waits goes on with: a value, or nothing if none can come. -/
def settled? : ReceiveResult α → Option (Option α)
  | .value sent => some (some sent)
  | .closed => some none
  | .wouldBlock => none

end ReceiveResult

namespace Frame

variable {α : Type}

/-- What a thread is at instead of a frame when it has taken a step; nothing if it cannot take
one.  A job that is offered gets the slot of the choice, or is refused without one.

All jobs but the last one are offered, and the last one is run at once.  Results are received
when all jobs are made, in the order of the jobs. -/
def advance (choice : Option Nat) (floor : Floor α) :
    Frame α → Option (List (Frame α) × Floor α)
  | .fanning client ⟨[last], out, results⟩ =>
    some ([.running ⟨last, floor.nextCell⟩,
      .fanning client ⟨[], out ++ [floor.nextCell], results⟩], floor.make.countInline)
  | .fanning client ⟨plan :: rest, out, results⟩ =>
    some ([.offering ⟨plan, floor.nextCell⟩,
      .fanning client ⟨rest, out ++ [floor.nextCell], results⟩], floor.make)
  | .fanning client ⟨[], cell :: out, results⟩ =>
    match floor.cells.perform (.receive cell) with
    | (.received reply, cells) =>
      reply.settled?.map fun result =>
        ([.fanning client ⟨[], out, results ++ [result]⟩], { floor with cells := cells })
    | _ => none
  | .fanning (.job cell next) ⟨[], [], results⟩ => some ([.running ⟨next results, cell⟩], floor)
  | .fanning .batch ⟨[], [], _⟩ => none
  | .offering task =>
    match choice with
    | none => some ([.running task], floor.countInline)
    | some slot =>
      match floor.pool.workers[slot]? with
      | none => none
      | some desk =>
        if desk.claimed then none
        else some ([.posting task slot], floor.setDesk slot { desk with claimed := true })
  | .posting task slot =>
    match floor.pool.workers[slot]? with
    | none => none
    | some desk =>
      if !desk.serving then some ([.running task], floor.countInline)
      else if desk.queue.length < Desk.capacity then some ([], floor.post slot desk task)
      else none
  | .running ⟨.yield result, cell⟩ => some ([.delivering cell result], floor.giveBack)
  | .running ⟨.abort, _⟩ => none
  | .running ⟨.fork jobs next, cell⟩ => some ([.fanning (.job cell next) ⟨jobs, [], []⟩], floor)
  | .delivering cell result =>
    some ([], { floor with cells := (floor.cells.perform (.send cell result)).2 })

end Frame

namespace Desk

variable {α : Type}

/-- What a worker that has nothing to do does: it frees its slot, or takes the next job. -/
def turn (desk : Desk α) : Option (List (Frame α) × Desk α) :=
  if desk.engaged then some ([], { desk with claimed := false, engaged := false })
  else if desk.serving then
    match desk.queue with
    | [] => none
    | task :: queue => some ([.running task], { desk with engaged := true, queue := queue })
  else none

end Desk

/-- The driver and the workers, with what they share. -/
structure Workshop (α : Type) where
  floor : Floor α
  /-- What each thread is at, the driver in front of the workers.  A thread goes on with the
  first of its frames. -/
  threads : List (List (Frame α))

/-- Which thread takes the next step, and which slot it claims if it offers a job. -/
structure Move where
  thread : Nat
  slot : Option Nat
deriving DecidableEq, Repr

namespace Workshop

variable {α : Type}

/-- A worker with nothing to do takes a step. -/
def stepDesk (shop : Workshop α) (slot : Nat) : Option (Workshop α) :=
  match shop.floor.pool.workers[slot]? with
  | none => none
  | some desk =>
    desk.turn.map fun (frames, desk) =>
      ⟨shop.floor.setDesk slot desk, shop.threads.set (slot + 1) frames⟩

/-- A thread takes a step, if it can. -/
def step (shop : Workshop α) (move : Move) : Option (Workshop α) :=
  match shop.threads[move.thread]? with
  | none => none
  | some [] =>
    match move.thread with
    | 0 => none
    | slot + 1 => shop.stepDesk slot
  | some (frame :: rest) =>
    (frame.advance move.slot shop.floor).map fun (frames, floor) =>
      ⟨floor, shop.threads.set move.thread (frames ++ rest)⟩

/-- Steps are taken one after the other. -/
def run (shop : Workshop α) (moves : List Move) : Option (Workshop α) :=
  moves.foldlM step shop

/-- The results of a batch, if all of them were received. -/
def results? (shop : Workshop α) : Option (List (Option α)) :=
  match shop.threads[0]? with
  | some [Frame.fanning .batch ⟨[], [], results⟩] => some results
  | _ => none

/-- The driver is about to hand out jobs, and no worker has one. -/
def opened (jobs : List (Plan α)) (pool : Pool (List (Desk α))) : Workshop α :=
  ⟨⟨pool, .empty⟩, [.fanning .batch ⟨jobs, [], []⟩] :: pool.workers.map fun _ => []⟩

end Workshop

namespace Batch

/-- The workshop in which a batch is about to be answered. -/
def opened (index : Index) (settings : Settings) (queries : List Query)
    (pool : Pool (List (Desk Product))) : Workshop Product :=
  .opened ((Slice.split queries settings.parallelism).map fun slice =>
    slicePlan index settings slice []) pool

/-- Answers a batch by the given steps and writes the answers; nothing if these steps cannot be
taken or do not suffice.  Nothing is written before all slices are answered. -/
def answerIn (moves : List Move) (index : Index) (settings : Settings) (queries : List Query)
    (pool : Pool (List (Desk Product))) (sink : Sink) :
    Option (Except Failure Unit × Pool (List (Desk Product)) × Sink) :=
  if (Slice.split queries settings.parallelism).isEmpty then some (.ok (), pool, sink)
  else
    ((opened index settings queries pool).run moves).bind fun shop =>
      shop.results?.map fun results =>
        let (result, sink) := deliver (results.map (·.bind Product.lines?)) sink
        (result.mapError .error, shop.floor.pool, sink)

end Batch

end PhraseLedger
