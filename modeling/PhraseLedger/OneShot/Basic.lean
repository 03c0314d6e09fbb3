/-!
# One-shot cells

A one-shot cell carries one value from a sender to a receiver.  Sending uses up the
sender, and receiving uses up the receiver.  A sender that is dropped closes a cell
that is still pending, so that a receiver never waits for a value that cannot come.

Main definitions:

- Definition {lit}`OneShot.send`: puts the value into the cell.
- Definition {lit}`OneShot.receive`: takes the value out of the cell.
- Definition {lit}`OneShot.dropSender`, {lit}`OneShot.dropReceiver`: give up one
  half.
-/

namespace PhraseLedger

/-- What a cell holds. -/
inductive CellState (α : Type) where
  /-- No value was sent, and the sender still can. -/
  | pending
  /-- A value was sent and not received yet. -/
  | ready (value : α)
  /-- The value was received, or no value can come any more. -/
  | closed
deriving DecidableEq, Repr

/-- A cell together with the halves that still exist. -/
structure OneShot (α : Type) where
  state : CellState α
  sender : Bool
  receiver : Bool
deriving DecidableEq, Repr

/-- What becomes of a value that is sent. -/
inductive SendResult (α : Type) where
  /-- The cell holds the value. -/
  | sent
  /-- The receiver does not exist any more, and the value goes back. -/
  | returned (value : α)
deriving DecidableEq, Repr

/-- What a receiver learns from a cell. -/
inductive ReceiveResult (α : Type) where
  /-- The value that was sent. -/
  | value (value : α)
  /-- No value was sent, and none can come. -/
  | closed
  /-- No value was sent yet. -/
  | wouldBlock
deriving DecidableEq, Repr

namespace OneShot

variable {α : Type}

/-- A new cell, with both halves. -/
def new : OneShot α := ⟨.pending, true, true⟩

/-- Settles a pending cell; a settled one is left as it is. -/
def resolve (cell : OneShot α) (next : CellState α) : OneShot α :=
  match cell.state with
  | .pending => { cell with state := next }
  | _ => cell

/-- Whether the receiver would have to wait, or nothing if there is no receiver. -/
def isPending? (cell : OneShot α) : Option Bool :=
  if cell.receiver then
    match cell.state with
    | .pending => some true
    | _ => some false
  else none

/-- Sends a value and uses up the sender, or nothing if there is no sender. -/
def send (cell : OneShot α) (value : α) : Option (SendResult α × OneShot α) :=
  if cell.sender then
    -- The sender lets go of the cell first, so its end does not close the cell.  What is left
    -- that has hold of it can only be the receiver.
    let cell := { cell with sender := false }
    if cell.receiver then some (.sent, cell.resolve (.ready value))
    else some (.returned value, cell)
  else none

/-- Gives up the sender, or nothing if there is none. -/
def dropSender (cell : OneShot α) : Option (OneShot α) :=
  if cell.sender then some ({ cell with sender := false }.resolve .closed) else none

/-- Gives up the receiver, or nothing if there is none. -/
def dropReceiver (cell : OneShot α) : Option (OneShot α) :=
  if cell.receiver then some { cell with receiver := false } else none

/-- Receives the value and uses up the receiver, or nothing if there is no receiver.
While the cell is pending nothing changes. -/
def receive (cell : OneShot α) : Option (ReceiveResult α × OneShot α) :=
  if cell.receiver then
    match cell.state with
    | .pending => some (.wouldBlock, cell)
    | .ready value => some (.value value, { cell with state := .closed, receiver := false })
    | .closed => some (.closed, { cell with receiver := false })
  else none

end OneShot

end PhraseLedger
