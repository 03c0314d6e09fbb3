import PhraseLedger.OneShot.Bank

/-!
# Cells of a bank

What the actions on a bank do to its cells, one by one.

Main definitions:

- Definitions {lit}`OneShot.sent` and {lit}`OneShot.used`: a cell in front of its receiver, and
  behind it.

Main results:

- Theorems {lit}`Bank.cell?_put` and {lit}`Bank.cell?_create`: the cells of a bank that was changed.
- Theorem {lit}`Bank.length_perform`: only a new cell makes a bank larger.
- Theorems {lit}`Bank.fst_change` and {lit}`Bank.cell?_change`: the reply to a change, and what it
  makes of its cell.
-/

namespace PhraseLedger

variable {α : Type}

namespace OneShot

/-- A cell whose value was not received yet. -/
def sent (value : α) : OneShot α := ⟨.ready value, false, true⟩

/-- A cell whose value was received. -/
def used : OneShot α := ⟨.closed, false, false⟩

end OneShot

namespace Bank

theorem cell?_put (bank : Bank α) (cell other : Nat) (content : OneShot α) :
    (bank.put cell content).cell? other =
      if other = cell then (bank.cell? cell).map fun _ => content else bank.cell? other := by
  rw [cell?, put, cell?, cell?]
  by_cases hother : other = cell
  · rw [if_pos hother, hother, List.getElem?_set_self']
    rfl
  · rw [if_neg hother, List.getElem?_set_ne (Ne.symm hother)]

theorem length_put (bank : Bank α) (cell : Nat) (content : OneShot α) :
    (bank.put cell content).cells.length = bank.cells.length :=
  List.length_set

theorem length_change {β : Type} (bank : Bank α) (cell : Nat) (reply : β → CellReply α)
    (change : OneShot α → Option (β × OneShot α)) :
    (bank.change cell reply change).2.cells.length = bank.cells.length := by
  rw [Bank.change]
  split
  · rfl
  · exact bank.length_put cell _

/-- Only a new cell makes a bank larger. -/
theorem length_perform (bank : Bank α) {action : CellAction α} (hcreate : action ≠ .create) :
    (bank.perform action).2.cells.length = bank.cells.length := by
  cases action with
  | create => exact absurd rfl hcreate
  | _ => exact bank.length_change _ _ _

/-- Actions that make no cell leave a bank as large as it is. -/
theorem length_foldl_perform {action : Nat → CellAction α} (hcreate : ∀ cell, action cell ≠ .create)
    (cells : List Nat) (bank : Bank α) :
    (cells.foldl (fun bank cell => (bank.perform (action cell)).2) bank).cells.length =
      bank.cells.length := by
  induction cells generalizing bank with
  | nil => rfl
  | cons cell rest ih => exact (ih _).trans (bank.length_perform (hcreate cell))

theorem cell?_create (bank : Bank α) (cell : Nat) :
    (bank.perform .create).2.cell? cell =
      if cell = bank.cells.length then some .new else bank.cell? cell := by
  rw [perform, cell?, cell?]
  by_cases hnew : cell = bank.cells.length
  · simp [hnew]
  · rw [if_neg hnew]
    simp only [List.getElem?_append, List.getElem?_singleton]
    split
    · rfl
    · rw [if_neg (by omega), List.getElem?_eq_none (by omega)]

/-- A value is sent to a new cell. -/
theorem perform_send_new {bank : Bank α} {cell : Nat} (hcell : bank.cell? cell = some .new)
    (value : α) : (bank.perform (.send cell value)).2 = bank.put cell (.sent value) := by
  rw [perform, change, hcell]
  rfl

/-- The reply to a change is about what it makes of the cell, if it can be made. -/
theorem fst_change {β : Type} (bank : Bank α) (cell : Nat) (reply : β → CellReply α)
    (next : OneShot α → Option (β × OneShot α)) :
    (bank.change cell reply next).1 =
      ((bank.cell? cell).bind next).elim .gone fun done => reply done.1 := by
  rw [change]
  split <;> rename_i hdone <;> rw [hdone] <;> rfl

/-- A change that cannot be made leaves the cell as it is. -/
theorem cell?_change {β : Type} (bank : Bank α) (cell : Nat) (reply : β → CellReply α)
    (next : OneShot α → Option (β × OneShot α)) :
    (bank.change cell reply next).2.cell? cell =
      ((bank.cell? cell).bind next).elim (bank.cell? cell) fun done => some done.2 := by
  rw [change]
  split <;> rename_i hdone <;> rw [hdone]
  · rfl
  · rcases Option.bind_eq_some_iff.mp hdone with ⟨content, hcontent, -⟩
    rw [cell?_put, if_pos rfl, hcontent]
    rfl

/-- A change leaves all other cells alone. -/
theorem cell?_change_of_ne {β : Type} {cell other : Nat} (hne : other ≠ cell) (bank : Bank α)
    (reply : β → CellReply α) (next : OneShot α → Option (β × OneShot α)) :
    (bank.change cell reply next).2.cell? other = bank.cell? other := by
  rw [change]
  split
  · rfl
  · rw [cell?_put, if_neg hne]

end Bank

end PhraseLedger
