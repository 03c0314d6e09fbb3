import PhraseLedger.Proofs.Workshop

/-!
# Results that are lost

A receiver learns that no value can come if its cell was closed by the sender that was given up.
Nothing else makes it learn that.

Main definitions:

- Definition {lit}`Bank.isLost`: whether the receiver of a cell learns that no value can come.

Main results:

- Theorem {lit}`Bank.perform_receive_eq_closed_iff`: what such a receiver learns.
- Theorem {lit}`Bank.isLost_of_dropSenders`: whose receivers lose a value.
-/

namespace PhraseLedger

variable {α : Type}

namespace OneShot

/-- Whether a receiver learns that no value can come. -/
def isLost (cell : OneShot α) : Bool :=
  match cell.state with
  | .closed => cell.receiver
  | _ => false

variable {cell after : OneShot α}

theorem isLost_of_send {value : α} {result : SendResult α}
    (hsend : cell.send value = some (result, after)) (hlost : after.isLost = true) :
    cell.isLost = true := by
  rcases cell with ⟨_ | other | _, _ | _, _ | _⟩ <;> cases hsend <;>
    first | rfl | cases hlost

theorem isLost_of_receive {result : ReceiveResult α}
    (hreceive : cell.receive = some (result, after)) (hlost : after.isLost = true) :
    cell.isLost = true := by
  rcases cell with ⟨_ | other | _, _ | _, _ | _⟩ <;> cases hreceive <;> cases hlost

theorem isLost_of_dropReceiver (hdrop : cell.dropReceiver = some after)
    (hlost : after.isLost = true) : cell.isLost = true := by
  rcases cell with ⟨_ | other | _, _ | _, _ | _⟩ <;> cases hdrop <;> cases hlost

end OneShot

namespace Bank

/-- Whether the receiver of a cell learns that no value can come. -/
def isLost (bank : Bank α) (cell : Nat) : Bool :=
  (bank.cell? cell).any OneShot.isLost

/-- A receiver that takes a step learns that no value can come just if the cell is lost. -/
theorem perform_receive_eq_closed_iff {bank : Bank α} {cell : Nat} :
    (bank.perform (.receive cell)).1 = .received .closed ↔ bank.isLost cell = true := by
  rw [perform, change, isLost]
  cases bank.cell? cell with
  | none => simp
  | some content =>
      rcases content with ⟨_ | value | _, sender, _ | _⟩ <;>
        simp [OneShot.receive, OneShot.isLost]

section

variable {β : Type} {bank : Bank α} {cell other : Nat} {reply : β → CellReply α}
  {next : OneShot α → Option (β × OneShot α)}

/-- A change of another cell. -/
theorem isLost_of_change_of_ne (hne : other ≠ cell)
    (hlost : (bank.change cell reply next).2.isLost other = true) : bank.isLost other = true := by
  rwa [isLost, cell?_change_of_ne hne] at hlost

/-- A change that no receiver loses a value by. -/
theorem isLost_of_change
    (hnext : ∀ content result after, next content = some (result, after) →
      after.isLost = true → content.isLost = true)
    (hlost : (bank.change cell reply next).2.isLost other = true) : bank.isLost other = true := by
  by_cases hsame : other = cell
  · subst hsame
    rw [change] at hlost
    split at hlost
    · exact hlost
    · rename_i result after hafter
      rcases Option.bind_eq_some_iff.mp hafter with ⟨content, hcontent, hthis⟩
      rw [isLost, cell?_put, if_pos rfl, hcontent] at hlost
      rw [isLost, hcontent]
      exact hnext content result after hthis hlost
  · exact isLost_of_change_of_ne hsame hlost

end

variable {bank : Bank α} {other : Nat}

theorem isLost_of_create (hlost : (bank.perform .create).2.isLost other = true) :
    bank.isLost other = true := by
  rw [isLost, cell?_create] at hlost
  split at hlost
  · cases hlost
  · exact hlost

/-- No receiver loses a value that is sent. -/
theorem isLost_of_perform_send {cell : Nat} {value : α}
    (hlost : (bank.perform (.send cell value)).2.isLost other = true) :
    bank.isLost other = true :=
  isLost_of_change (fun _ _ _ => OneShot.isLost_of_send) hlost

/-- No receiver loses a value that another one receives. -/
theorem isLost_of_perform_receive {cell : Nat}
    (hlost : (bank.perform (.receive cell)).2.isLost other = true) : bank.isLost other = true :=
  isLost_of_change (fun _ _ _ => OneShot.isLost_of_receive) hlost

/-- Receivers that are dropped learn nothing. -/
theorem isLost_of_dropReceivers {cells : List Nat}
    (hlost : (cells.foldl (fun bank cell => (bank.perform (.dropReceiver cell)).2) bank).isLost
      other = true) : bank.isLost other = true := by
  induction cells generalizing bank with
  | nil => exact hlost
  | cons cell rest ih =>
      refine isLost_of_change (fun content result after hdrop => ?_) (ih hlost)
      rcases Option.map_eq_some_iff.mp hdrop with ⟨dropped, hdropped, hpair⟩
      obtain ⟨-, rfl⟩ := Prod.mk.inj hpair
      exact OneShot.isLost_of_dropReceiver hdropped

/-- Only the receivers of jobs that are dropped lose a value. -/
theorem isLost_of_dropSenders {cells : List Nat}
    (hlost : (cells.foldl (fun bank cell => (bank.perform (.dropSender cell)).2) bank).isLost
      other = true) : bank.isLost other = true ∨ other ∈ cells := by
  induction cells generalizing bank with
  | nil => exact .inl hlost
  | cons cell rest ih =>
      rcases ih hlost with hbefore | hrest
      · by_cases hsame : other = cell
        · exact .inr (List.mem_cons.mpr (.inl hsame))
        · exact .inl (isLost_of_change_of_ne hsame hbefore)
      · exact .inr (List.mem_cons_of_mem cell hrest)

end Bank

end PhraseLedger
