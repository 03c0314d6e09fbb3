import PhraseLedger.Dispatch.Pool
import PhraseLedger.Error
import PhraseLedger.SlotSet

/-!
# A crew of fixed size

The workers of a pool are numbered, and each has a slot in a slot set.  A claim takes
the lowest free slot.  The worker of the slot runs the job and then frees its slot
again, but some time may pass between the end of a job and the moment at which the
slot is free, so a schedule decides which slots are back before each claim.  The slot
of a worker that was aborted is never free again.

Stopped workers leave their slots as they are.  A claim that takes such a slot finds
nobody there, so the job is handed back and the slot stays claimed.

Main definitions:

- Definition {lit}`Workers.crew`: the workers as a crew.
- Definition {lit}`Workers.settle`: lets all slots of living workers become free.
- Definition {lit}`Workers.stop`: stops all workers.
-/

namespace PhraseLedger

/-- What is known of one worker. -/
structure Worker where
  /-- Whether no job aborted it. -/
  alive : Bool
  /-- Number of jobs that it completed. -/
  completed : Nat
deriving DecidableEq, Repr

/-- The order in which finished workers become free: whether the worker of a slot is
back before a claim, given the number of claims so far. -/
abbrev Schedule := Nat → Nat → Bool

/-- A fixed number of workers. -/
structure Workers where
  slots : SlotSet
  /-- The workers by slot. -/
  roster : List Worker
  /-- The slots of workers that completed their job but have not freed their slot. -/
  finished : List Nat
  /-- Number of claims so far. -/
  claims : Nat
  schedule : Schedule
  /-- Whether the workers were stopped. -/
  stopped : Bool
  /-- What was warned of, the newest warning first. -/
  warnings : List String

namespace Workers

/-- The schedule under which no slot becomes free by itself. -/
def unhurried : Schedule := fun _ _ => false

/-- The schedule under which every slot is free again at the next claim. -/
def prompt : Schedule := fun _ _ => true

/-- A number of idle workers. -/
def idle (size : Nat) (schedule : Schedule) : Workers :=
  { slots := .free size
    roster := List.replicate size ⟨true, 0⟩
    finished := []
    claims := 0
    schedule := schedule
    stopped := false
    warnings := [] }

/-- Number of workers. -/
def size (workers : Workers) : Nat :=
  workers.slots.size

/-- Number of free slots. -/
def idleCount (workers : Workers) : Nat :=
  workers.slots.freeCount

/-- Whether the worker of a slot takes jobs. -/
def isServing (workers : Workers) (slot : Nat) : Bool :=
  !workers.stopped && workers.roster[slot]?.any Worker.alive

/-- Frees those finished slots that `back` selects. -/
def freeFinished (back : Nat → Bool) (workers : Workers) : Workers :=
  { workers with
    slots := (workers.finished.filter back).foldl SlotSet.release workers.slots
    finished := workers.finished.filter (!back ·) }

/-- Frees all finished slots. -/
def settle (workers : Workers) : Workers :=
  workers.freeFinished fun _ => true

/-- Adds a warning. -/
def warn (workers : Workers) (warning : String) : Workers :=
  { workers with warnings := warning :: workers.warnings }

/-- The warning about a slot whose worker is gone. -/
def goneWarning (slot : Nat) : String :=
  "worker " ++ toString slot ++ " is gone; running job inline"

/-- The warning about a worker that was aborted. -/
def silentWarning (slot : Nat) : String :=
  "worker " ++ toString slot ++ " exited without reporting its status"

/-- Claims the lowest free slot for a job.  If nobody serves there, the slot stays
claimed and the job is handed back. -/
def claim (workers : Workers) : Option Nat × Workers :=
  let workers := workers.freeFinished (workers.schedule workers.claims)
  let workers := { workers with claims := workers.claims + 1 }
  match workers.slots.claim with
  | (none, _) => (none, workers)
  | (some slot, slots) =>
    let workers := { workers with slots := slots }
    if workers.isServing slot then (some slot, workers)
    else (none, workers.warn (goneWarning slot))

/-- The worker of a slot completed its job. -/
def complete (slot : Nat) (workers : Workers) : Workers :=
  { workers with
    roster := workers.roster.modify slot fun w => { w with completed := w.completed + 1 }
    finished := slot :: workers.finished }

/-- The worker of a slot was aborted by its job. -/
def bury (slot : Nat) (workers : Workers) : Workers :=
  { workers with roster := workers.roster.modify slot fun w => { w with alive := false } }

/-- The workers as a crew. -/
def crew : Crew Workers := ⟨claim, complete, bury⟩

/-- Stops all workers after they completed their jobs.  Each one that was not aborted
reports its slot and the number of jobs that it completed.  Stopping again reports
nothing. -/
def stop (workers : Workers) : List (Nat × Nat) × Workers :=
  if workers.stopped then ([], workers)
  else
    let entries := workers.roster.zipIdx
    let reports := (entries.filter (·.1.alive)).map fun entry => (entry.2, entry.1.completed)
    let silent := (entries.filter (!·.1.alive)).map fun entry => silentWarning entry.2
    (reports, silent.foldl warn { workers.settle with stopped := true })

end Workers

namespace Pool

/-- A pool of idle workers, of which there must be at least one. -/
def ofSize (size : Nat) (schedule : Schedule) : Except Error (Pool Workers) :=
  if size = 0 then .error (.invalidArgument "size" "size > 0")
  else .ok (.start (.idle size schedule))

end Pool

end PhraseLedger
