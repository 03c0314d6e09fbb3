import PhraseLedger.Dispatch.Turns
import PhraseLedger.Dispatch.Workshop

/-!
# Closing a pool

The owner of a pool closes it: every worker is told to stop, reports how many jobs it completed,
and goes.  Meanwhile any number of callers may still have jobs to hand over, and so may the jobs
that the workers are at.  This module says what happens then, step by step and in any order.

A worker takes its messages in the order in which they were sent.  A job that is sent after the
worker was told to stop is behind that message in the inbox.  The inbox exists until the worker
is gone, and what is in it then is dropped.

Nothing is said about the choice of a slot: a claim may take any free slot and may be refused
at any time.  A job that aborts its thread takes everything with it that the thread is at.

Main definitions:

- Definition {lit}`Post.turn`: a step of a worker that has nothing in hand.
- Definition {lit}`Duty.advance`, {lit}`Pending.advance`: a step of a thread that has something to
  do.
- Definition {lit}`House.step`: a step of a thread, of a caller or of the owner.
-/

namespace PhraseLedger

/-! ## Workers -/

/-- What is sent to a worker. -/
inductive Message (α : Type) where
  | run (task : Task α)
  | stop

/-- The cells of the jobs among messages. -/
def Message.jobs {α : Type} : List (Message α) → List Nat
  | [] => []
  | .run task :: rest => task.cell :: jobs rest
  | .stop :: rest => jobs rest

/-- How far a worker is with leaving. -/
inductive Stance where
  /-- It takes what is sent to it. -/
  | serving
  /-- It has stopped, but its inbox still exists. -/
  | leaving
  /-- It has reported the number of its jobs and is gone. -/
  | gone
  /-- A job aborted it. -/
  | lost
deriving DecidableEq, Repr

/-- A worker and what it shares with those that have jobs for it. -/
structure Post (α : Type) where
  /-- Whether the slot of the worker is claimed. -/
  claimed : Bool
  /-- Whether the worker took a job and has not freed its slot since. -/
  engaged : Bool
  stance : Stance
  /-- What was sent to the worker and not taken yet. -/
  inbox : List (Message α)
  /-- Number of jobs that the worker completed. -/
  completed : Nat
  /-- Whether the worker was told to stop. -/
  told : Bool
  /-- The cells of the jobs that the worker took. -/
  taken : List Nat
  /-- The cells of the jobs that were sent to the worker after it was told to stop. -/
  late : List Nat

namespace Post

variable {α : Type}

/-- A worker that waits for jobs. -/
def idle : Post α := ⟨false, false, .serving, [], 0, false, [], []⟩

/-- Whether nobody takes what is sent to the worker. -/
def isOver (post : Post α) : Bool :=
  post.stance = .gone || post.stance = .lost

/-- A job is put into the inbox. -/
def send (task : Task α) (post : Post α) : Post α :=
  { post with
    inbox := post.inbox ++ [.run task]
    late := if post.told then post.late ++ [task.cell] else post.late }

/-- The worker is told to stop, which it does not learn if it is gone already. -/
def tell (post : Post α) : Post α :=
  { post with
    told := true
    inbox := if post.isOver then post.inbox else post.inbox ++ [.stop] }

/-- The inbox goes with the worker. -/
def quit (stance : Stance) (post : Post α) : Post α :=
  { post with stance := stance, inbox := [] }

end Post

/-! ## Threads -/

/-- What a thread is at. -/
inductive Duty (α : Type) where
  /-- It offers a job to the workers. -/
  | offering (handover : Handover) (task : Task α)
  /-- It has claimed a slot for a job. -/
  | posting (handover : Handover) (task : Task α) (slot : Nat)
  /-- It has sent a job to a worker and is about to count it. -/
  | counting (cell : Nat)
  /-- It has a job that was handed back. -/
  | holding (task : Task α)
  /-- It runs a job. -/
  | running (task : Task α)

namespace Duty

variable {α : Type}

/-- The cell of the job that a thread has in hand. -/
def cell? : Duty α → Option Nat
  | .offering _ task | .posting _ task _ | .holding task | .running task => some task.cell
  | .counting _ => none

end Duty

/-- A job that waits for the results of jobs that it hands out, and goes on with them. -/
structure Pending (α : Type) where
  cell : Nat
  next : List (Option α) → Plan α
  fan : Fan α

/-- A thread: what it is at, and the jobs that wait meanwhile, the newest one in front. -/
structure Strand (α : Type) where
  duty : Option (Duty α)
  pending : List (Pending α)

namespace Strand

variable {α : Type}

/-- A thread that has nothing to do. -/
def idle : Strand α := ⟨none, []⟩

/-- The cells of the jobs that a thread has. -/
def senders (strand : Strand α) : List Nat :=
  (strand.duty.bind Duty.cell?).toList ++ strand.pending.map Pending.cell

/-- The cells of the jobs that a thread waits for. -/
def receivers (strand : Strand α) : List Nat :=
  strand.pending.flatMap fun pending => pending.fan.out

end Strand

/-- What was done with jobs, by their cells. -/
structure Register where
  /-- The jobs that were offered, one entry for every time. -/
  calls : List Nat
  /-- The jobs that were accepted. -/
  accepted : List Nat
  /-- The jobs that were handed back, one entry for every time. -/
  returned : List Nat
  /-- The jobs that were handed back and discarded. -/
  discarded : List Nat
  /-- The jobs that were dropped by a thread that was aborted. -/
  unwound : List Nat

/-- What the threads share. -/
structure Hall (α : Type) where
  /-- The workers by slot. -/
  posts : List (Post α)
  /-- The cells of all jobs. -/
  cells : Bank α
  /-- Number of jobs handed to a worker. -/
  dispatched : Nat
  /-- Number of jobs run by the thread that had them. -/
  inline : Nat
  /-- What was warned of, the newest warning first. -/
  warnings : List String
  register : Register

namespace Hall

variable {α : Type}

/-- The number of the next cell. -/
def nextCell (hall : Hall α) : Nat :=
  hall.cells.cells.length

/-- A cell for the result of a job is made. -/
def make (hall : Hall α) : Hall α :=
  { hall with cells := (hall.cells.perform .create).2 }

/-- A worker is replaced. -/
def setPost (slot : Nat) (post : Post α) (hall : Hall α) : Hall α :=
  { hall with posts := hall.posts.set slot post }

/-- A job is run by the thread that has it. -/
def countInline (hall : Hall α) : Hall α :=
  { hall with inline := hall.inline + 1 }

/-- A job is offered. -/
def call (cell : Nat) (hall : Hall α) : Hall α :=
  { hall with register := { hall.register with calls := hall.register.calls ++ [cell] } }

/-- A job was accepted. -/
def accept (cell : Nat) (hall : Hall α) : Hall α :=
  { hall with
    dispatched := hall.dispatched + 1
    register := { hall.register with accepted := hall.register.accepted ++ [cell] } }

/-- A job is handed back. -/
def handBack (cell : Nat) (hall : Hall α) : Hall α :=
  { hall with register := { hall.register with returned := hall.register.returned ++ [cell] } }

/-- Nobody is at the slot that was claimed. -/
def warnGone (slot : Nat) (hall : Hall α) : Hall α :=
  { hall with warnings := Workers.goneWarning slot :: hall.warnings }

/-- Jobs are dropped, and so are the senders of their results. -/
def dropSenders (cells : List Nat) (hall : Hall α) : Hall α :=
  { hall with
    cells := cells.foldl (fun bank cell => (bank.perform (.dropSender cell)).2) hall.cells }

/-- Those that wait for results are dropped. -/
def dropReceivers (cells : List Nat) (hall : Hall α) : Hall α :=
  { hall with
    cells := cells.foldl (fun bank cell => (bank.perform (.dropReceiver cell)).2) hall.cells }

/-- A job that was handed back is discarded. -/
def discard (cell : Nat) (hall : Hall α) : Hall α :=
  { hall.dropSenders [cell] with
    register := { hall.register with discarded := hall.register.discarded ++ [cell] } }

/-- A thread begins to hand a job over. -/
def handOver (handover : Handover) (task : Task α) (hall : Hall α) : Duty α × Hall α :=
  match handover with
  | .toSelf => (.running task, hall.countInline)
  | _ => (.offering handover task, hall.call task.cell)

/-- A thread gets a job back that no worker took. -/
def takeBack (handover : Handover) (task : Task α) (hall : Hall α) : Duty α × Hall α :=
  match handover with
  | .toWorker => (.holding task, hall.handBack task.cell)
  | _ => (.running task, (hall.handBack task.cell).countInline)

end Hall

namespace Duty

variable {α : Type}

/-- What a thread is at when it has taken a step, a job that waits from now on, and what the
threads share; nothing if the thread cannot take a step.  A job that is offered gets the slot of
the choice, or is handed back without one. -/
def advance (choice : Option Nat) (hall : Hall α) :
    Duty α → Option (Option (Duty α) × Option (Pending α) × Hall α)
  | .offering handover task =>
    match choice with
    | none =>
      let (duty, hall) := hall.takeBack handover task
      some (some duty, none, hall)
    | some slot =>
      match hall.posts[slot]? with
      | none => none
      | some post =>
        if post.claimed then none
        else
          some (some (.posting handover task slot), none,
            hall.setPost slot { post with claimed := true })
  | .posting handover task slot =>
    match hall.posts[slot]? with
    | none => none
    | some post =>
      if post.isOver then
        let (duty, hall) := (hall.warnGone slot).takeBack handover task
        some (some duty, none, hall)
      else if post.inbox.length < Desk.capacity then
        some (some (.counting task.cell), none, hall.setPost slot (post.send task))
      else none
  | .counting cell => some (none, none, hall.accept cell)
  | .holding _ => none
  | .running ⟨.yield result, cell⟩ =>
    some (none, none, { hall with cells := (hall.cells.perform (.send cell result)).2 })
  | .running ⟨.abort, _⟩ => none
  | .running ⟨.fork jobs next, cell⟩ => some (none, some ⟨cell, next, ⟨jobs, [], []⟩⟩, hall)

end Duty

namespace Pending

variable {α : Type}

/-- What a thread is at when the job that waits has taken a step, the job if it still waits, and
what the threads share; nothing if the job cannot take a step. -/
def advance (hall : Hall α) (pending : Pending α) :
    Option (Option (Duty α) × Option (Pending α) × Hall α) :=
  match pending.fan with
  | ⟨plan :: todo, out, results⟩ =>
    let handover := if todo.isEmpty then .toSelf else .toAnyone
    let (duty, after) := hall.make.handOver handover ⟨plan, hall.nextCell⟩
    some (some duty, some { pending with fan := ⟨todo, out ++ [hall.nextCell], results⟩ }, after)
  | ⟨[], cell :: out, results⟩ =>
    match hall.cells.perform (.receive cell) with
    | (.received reply, cells) =>
      reply.settled?.map fun result =>
        (none, some { pending with fan := ⟨[], out, results ++ [result]⟩ },
          { hall with cells := cells })
    | _ => none
  | ⟨[], [], results⟩ => some (some (.running ⟨pending.next results, pending.cell⟩), none, hall)

end Pending

namespace Post

variable {α : Type}

/-- What a worker with nothing in hand does: it frees its slot, takes the next message or goes.
The cells are those of the jobs that are dropped. -/
def turn (post : Post α) : Option (Strand α × Post α × List Nat) :=
  match post.stance with
  | .serving =>
    if post.engaged then
      some (.idle,
        { post with claimed := false, engaged := false, completed := post.completed + 1 }, [])
    else
      match post.inbox with
      | [] => none
      | .run task :: rest =>
        some (⟨some (.running task), []⟩,
          { post with engaged := true, inbox := rest, taken := post.taken ++ [task.cell] }, [])
      | .stop :: rest => some (.idle, { post with stance := .leaving, inbox := rest }, [])
  | .leaving => some (.idle, post.quit .gone, Message.jobs post.inbox)
  | _ => none

end Post

/-! ## The pool and its owner -/

/-- The threads around a pool: first those of the workers, by slot, then those of callers. -/
structure House (α : Type) where
  hall : Hall α
  strands : List (Strand α)
  /-- What the workers reported, once the pool is closed. -/
  closed : Option (List (Nat × Nat))

/-- What happens next. -/
inductive Act (α : Type) where
  /-- A caller makes a job and hands it over. -/
  | bring (strand : Nat) (handover : Handover) (plan : Plan α)
  /-- A caller hands a job over that was handed back. -/
  | again (strand : Nat) (handover : Handover)
  /-- A caller discards a job that was handed back. -/
  | discard (strand : Nat)
  /-- A thread takes a step, and claims a slot if it offers a job. -/
  | go (strand : Nat) (slot : Option Nat)
  /-- The owner tells the next worker to stop. -/
  | tell
  /-- The owner learns that all workers are gone. -/
  | conclude

namespace House

variable {α : Type}

/-- A pool of idle workers, and callers. -/
def opened (size callers : Nat) : House α :=
  ⟨⟨List.replicate size .idle, .empty, 0, 0, [], ⟨[], [], [], [], []⟩⟩,
    List.replicate (size + callers) .idle, none⟩

/-- A thread gets to something else. -/
def setStrand (index : Nat) (strand : Strand α) (hall : Hall α) (house : House α) : House α :=
  { house with hall := hall, strands := house.strands.set index strand }

/-- A worker with nothing in hand takes a step. -/
def turn (slot : Nat) (house : House α) : Option (House α) :=
  match house.hall.posts[slot]? with
  | none => none
  | some post =>
    post.turn.map fun (strand, post, dropped) =>
      house.setStrand slot strand ((house.hall.setPost slot post).dropSenders dropped)

/-- A thread is aborted with all that it is at.  If it is that of a worker, the inbox of the
worker goes with it. -/
def unwind (index : Nat) (strand : Strand α) (house : House α) : House α :=
  let dropped := strand.senders ++
    (house.hall.posts[index]?.map fun post => Message.jobs post.inbox).getD []
  let hall := (house.hall.dropSenders dropped).dropReceivers strand.receivers
  house.setStrand index .idle
    { hall with
      posts := hall.posts.modify index (Post.quit .lost)
      register := { hall.register with unwound := hall.register.unwound ++ dropped } }

/-- What the workers report that were not aborted: their slots and the numbers of their jobs. -/
def reports (house : House α) : List (Nat × Nat) :=
  (house.hall.posts.zipIdx.filter (·.1.stance = .gone)).map fun entry =>
    (entry.2, entry.1.completed)

/-- The owner closes the pool when all workers are gone, and warns of those that did not
report. -/
def close (house : House α) : House α :=
  let silent := house.hall.posts.zipIdx.filter (·.1.stance = .lost)
  { house with
    hall := { house.hall with
      warnings := (silent.map fun entry => Workers.silentWarning entry.2).reverse ++
        house.hall.warnings }
    closed := some house.reports }

/-- Something happens, if it can. -/
def step (house : House α) : Act α → Option (House α)
  | .bring index handover plan =>
    if index < house.hall.posts.length then none
    else
      match house.strands[index]? with
      | some ⟨none, []⟩ =>
        let (duty, hall) := house.hall.make.handOver handover ⟨plan, house.hall.nextCell⟩
        some (house.setStrand index ⟨some duty, []⟩ hall)
      | _ => none
  | .again index handover =>
    match house.strands[index]? with
    | some ⟨some (.holding task), pending⟩ =>
      let (duty, hall) := house.hall.handOver handover task
      some (house.setStrand index ⟨some duty, pending⟩ hall)
    | _ => none
  | .discard index =>
    match house.strands[index]? with
    | some ⟨some (.holding task), pending⟩ =>
      some (house.setStrand index ⟨none, pending⟩ (house.hall.discard task.cell))
    | _ => none
  | .go index choice =>
    match house.strands[index]? with
    | none => none
    | some ⟨none, []⟩ => house.turn index
    | some ⟨none, pending :: rest⟩ =>
      (pending.advance house.hall).map fun (duty, kept, hall) =>
        house.setStrand index ⟨duty, kept.toList ++ rest⟩ hall
    | some ⟨some (.running ⟨.abort, cell⟩), pending⟩ =>
      some (house.unwind index ⟨some (.running ⟨.abort, cell⟩), pending⟩)
    | some ⟨some duty, pending⟩ =>
      (duty.advance choice house.hall).map fun (duty, started, hall) =>
        house.setStrand index ⟨duty, started.toList ++ pending⟩ hall
  | .tell =>
    match house.hall.posts.findIdx? (!·.told) with
    | none => none
    | some slot =>
      match house.hall.posts[slot]? with
      | none => none
      | some post =>
        if post.isOver || post.inbox.length < Desk.capacity then
          some { house with hall := house.hall.setPost slot post.tell }
        else none
  | .conclude =>
    if house.closed.isNone && house.hall.posts.all fun post => post.told && post.isOver then
      some house.close
    else none

/-- Things happen one after the other. -/
def run (house : House α) (acts : List (Act α)) : Option (House α) :=
  acts.foldlM step house

end House

end PhraseLedger
