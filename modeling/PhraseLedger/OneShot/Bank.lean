import PhraseLedger.OneShot.Basic

/-!
# Banks of one-shot cells

A bank holds any number of cells, numbered in the order in which they came into being.
An action concerns one cell and tells what became of it; an action on a half that was
used up or dropped before, or on a cell that does not exist, changes nothing.

Main definitions:

- Definition {lit}`Bank.perform`: performs one action.
- Definition {lit}`Bank.performAll`: performs actions one after the other.
-/

namespace PhraseLedger

/-- Something that happens to a cell of a bank. -/
inductive CellAction (α : Type) where
  /-- A new cell comes into being. -/
  | create
  /-- A value is sent. -/
  | send (cell : Nat) (value : α)
  /-- The sender is given up. -/
  | dropSender (cell : Nat)
  /-- The receiver is given up. -/
  | dropReceiver (cell : Nat)
  /-- The receiver asks whether it would have to wait. -/
  | ask (cell : Nat)
  /-- The receiver takes the value. -/
  | receive (cell : Nat)
deriving DecidableEq, Repr

/-- What comes of an action. -/
inductive CellReply (α : Type) where
  /-- The number of the new cell. -/
  | created (cell : Nat)
  /-- What becomes of the value that was sent. -/
  | sent (result : SendResult α)
  /-- The half was given up. -/
  | dropped
  /-- Whether the receiver would have to wait. -/
  | isPending (pending : Bool)
  /-- What the receiver learned. -/
  | received (result : ReceiveResult α)
  /-- The half that the action needs does not exist any more. -/
  | gone
deriving DecidableEq, Repr

/-- Cells by number. -/
structure Bank (α : Type) where
  cells : List (OneShot α)
deriving DecidableEq, Repr

namespace Bank

variable {α : Type}

/-- A bank without cells. -/
def empty : Bank α := ⟨[]⟩

/-- The cell of a number. -/
def cell? (bank : Bank α) (cell : Nat) : Option (OneShot α) :=
  bank.cells[cell]?

/-- Puts a cell in the place of the one of the same number. -/
def put (bank : Bank α) (cell : Nat) (content : OneShot α) : Bank α :=
  ⟨bank.cells.set cell content⟩

/-- Applies a change to a cell, which has no effect if it is not possible. -/
def change {β : Type} (bank : Bank α) (cell : Nat) (reply : β → CellReply α)
    (change : OneShot α → Option (β × OneShot α)) : CellReply α × Bank α :=
  match (bank.cell? cell).bind change with
  | none => (.gone, bank)
  | some (result, content) => (reply result, bank.put cell content)

/-- Performs one action. -/
def perform (bank : Bank α) : CellAction α → CellReply α × Bank α
  | .create => (.created bank.cells.length, ⟨bank.cells ++ [.new]⟩)
  | .send cell value => bank.change cell .sent (·.send value)
  | .dropSender cell =>
    bank.change cell (fun _ => .dropped) fun content => content.dropSender.map ((), ·)
  | .dropReceiver cell =>
    bank.change cell (fun _ => .dropped) fun content => content.dropReceiver.map ((), ·)
  | .ask cell =>
    bank.change cell .isPending fun content => content.isPending?.map (·, content)
  | .receive cell => bank.change cell .received (·.receive)

/-- Performs actions one after the other. -/
def performAll (bank : Bank α) : List (CellAction α) → List (CellReply α) × Bank α
  | [] => ([], bank)
  | action :: rest =>
    let (reply, bank) := bank.perform action
    let (replies, bank) := bank.performAll rest
    (reply :: replies, bank)

end Bank

end PhraseLedger
