import PhraseLedger.Proofs.Cells
import Mathlib.Data.List.Induction

/-!
# Lives of cells

A cell has two halves, and each of them is used up once: the sender by a value that is passed to it
or by being dropped, the receiver by what it receives or by being dropped.  So of all that happens
at a bank only a few events tell of a cell, in one of a few orders, and they decide what it holds.

Main definitions:

- Definition {lit}`Bank.history`: what happened at a bank.
- Definitions {lit}`Past.SenderAlive` and {lit}`Past.ReceiverAlive`: the halves that are left.
- Definition {lit}`Past.story`: the events that tell of a cell.
- Definition {lit}`Life`: the stories that a cell can have, with what it holds at their end.

Main results:

- Theorem {lit}`Life.perform`: what an action adds to the story of a cell.
- Theorem {lit}`Bank.life_of_history`: whatever happens at a bank, its cells have such stories.
-/

namespace PhraseLedger

variable {α : Type}

/-! ## Events -/

/-- An action on a bank with the reply to it. -/
structure CellEvent (α : Type) where
  action : CellAction α
  reply : CellReply α
deriving DecidableEq, Repr

/-- The cell that an action is on, which is none of those that exist if it makes one. -/
def CellAction.cell? : CellAction α → Option Nat
  | .create => none
  | .send cell _ => some cell
  | .dropSender cell => some cell
  | .dropReceiver cell => some cell
  | .ask cell => some cell
  | .receive cell => some cell

namespace CellEvent

/-- A cell comes into being. -/
abbrev created (cell : Nat) : CellEvent α := ⟨.create, .created cell⟩

/-- A value is passed to the sender of a cell. -/
abbrev passed (cell : Nat) (value : α) (result : SendResult α) : CellEvent α :=
  ⟨.send cell value, .sent result⟩

/-- The sender of a cell is dropped. -/
abbrev senderDropped (cell : Nat) : CellEvent α := ⟨.dropSender cell, .dropped⟩

/-- The receiver of a cell is dropped. -/
abbrev receiverDropped (cell : Nat) : CellEvent α := ⟨.dropReceiver cell, .dropped⟩

/-- The receiver of a cell learns something. -/
abbrev received (cell : Nat) (result : ReceiveResult α) : CellEvent α :=
  ⟨.receive cell, .received result⟩

/-- Whether an event is about a cell: an action on it, or the one that makes it. -/
def concerns (cell : Nat) (event : CellEvent α) : Bool :=
  match event.reply with
  | .created new => new = cell
  | _ => event.action.cell? = some cell

/-- Whether an event makes a cell or uses up one of its halves. -/
@[simp] def tells (cell : Nat) : CellEvent α → Bool
  | ⟨.create, .created new⟩ => new = cell
  | ⟨.send other _, .sent _⟩ => other = cell
  | ⟨.dropSender other, .dropped⟩ => other = cell
  | ⟨.dropReceiver other, .dropped⟩ => other = cell
  | ⟨.receive _, .received .wouldBlock⟩ => false
  | ⟨.receive other, .received _⟩ => other = cell
  | _ => false

@[simp] theorem tells_gone (cell : Nat) (action : CellAction α) :
    tells cell ⟨action, .gone⟩ = false := by
  cases action <;> rfl

/-- An event that tells of a cell is about it. -/
theorem concerns_of_tells {cell : Nat} {event : CellEvent α} (htells : event.tells cell = true) :
    event.concerns cell = true := by
  rw [tells.eq_def] at htells
  split at htells <;> simp_all [concerns, CellAction.cell?]

end CellEvent

/-- What happened at a bank, in its order. -/
abbrev Past (α : Type) := List (CellEvent α)

namespace Past

/-- Whether a cell came into being. -/
def Created (past : Past α) (cell : Nat) : Prop := .created cell ∈ past

/-- Whether a value was passed to the sender of a cell. -/
def Passed (past : Past α) (cell : Nat) (value : α) : Prop :=
  ∃ result, .passed cell value result ∈ past

/-- Whether a value was sent on its way to the receiver of a cell. -/
def Sent (past : Past α) (cell : Nat) (value : α) : Prop := .passed cell value .sent ∈ past

/-- Whether the sender of a cell was dropped. -/
def SenderDropped (past : Past α) (cell : Nat) : Prop := .senderDropped cell ∈ past

/-- Whether the receiver of a cell was dropped. -/
def ReceiverDropped (past : Past α) (cell : Nat) : Prop := .receiverDropped cell ∈ past

/-- Whether a cell has its sender: it was neither dropped nor used. -/
def SenderAlive (past : Past α) (cell : Nat) : Prop :=
  past.Created cell ∧ ¬past.SenderDropped cell ∧ ∀ value, ¬past.Passed cell value

/-- Whether a cell has its receiver: it was not dropped, and did not get anything but the advice to
wait. -/
def ReceiverAlive (past : Past α) (cell : Nat) : Prop :=
  past.Created cell ∧ ¬past.ReceiverDropped cell ∧
    ∀ result, .received cell result ∈ past → result = .wouldBlock

/-- The events that tell of a cell. -/
def story (past : Past α) (cell : Nat) : Past α := past.filter (·.tells cell)

theorem story_append (past later : Past α) (cell : Nat) :
    (past ++ later).story cell = past.story cell ++ later.story cell :=
  List.filter_append ..

/-- An event is a story of its own if it tells of the cell. -/
@[simp] theorem story_singleton (event : CellEvent α) (cell : Nat) :
    Past.story [event] cell = if event.tells cell then [event] else [] := by
  rw [story, List.filter_cons, List.filter_nil]

theorem mem_story {past : Past α} {cell : Nat} {event : CellEvent α}
    (htells : event.tells cell = true) : event ∈ past.story cell ↔ event ∈ past := by
  rw [story, List.mem_filter, htells]
  exact and_iff_left rfl

section

variable (past : Past α) (cell : Nat)

theorem created_story : (past.story cell).Created cell ↔ past.Created cell :=
  mem_story (by simp)

theorem passed_story (value : α) : (past.story cell).Passed cell value ↔ past.Passed cell value :=
  exists_congr fun _ => mem_story (by simp)

theorem sent_story (value : α) : (past.story cell).Sent cell value ↔ past.Sent cell value :=
  mem_story (by simp)

theorem senderDropped_story : (past.story cell).SenderDropped cell ↔ past.SenderDropped cell :=
  mem_story (by simp)

theorem receiverDropped_story :
    (past.story cell).ReceiverDropped cell ↔ past.ReceiverDropped cell :=
  mem_story (by simp)

theorem senderAlive_story : (past.story cell).SenderAlive cell ↔ past.SenderAlive cell := by
  simp only [SenderAlive, created_story, senderDropped_story, passed_story]

theorem receiverAlive_story : (past.story cell).ReceiverAlive cell ↔ past.ReceiverAlive cell := by
  have hreceived : (∀ result, .received cell result ∈ past.story cell → result = .wouldBlock) ↔
      ∀ result, .received cell result ∈ past → result = .wouldBlock := by
    refine forall_congr' fun result => ?_
    cases result with
    | wouldBlock => simp
    | value value => rw [mem_story (by simp)]
    | closed => rw [mem_story (by simp)]
  simp only [ReceiverAlive, created_story, receiverDropped_story, hreceived]

end

end Past

/-! ## Histories -/

namespace Bank

theorem performAll_concat (bank : Bank α) (actions : List (CellAction α)) (action : CellAction α) :
    bank.performAll (actions ++ [action]) =
      ((bank.performAll actions).1 ++ [((bank.performAll actions).2.perform action).1],
        ((bank.performAll actions).2.perform action).2) := by
  induction actions generalizing bank with
  | nil => rfl
  | cons first rest ih => simp only [List.cons_append, performAll, ih]

theorem length_performAll (bank : Bank α) (actions : List (CellAction α)) :
    (bank.performAll actions).1.length = actions.length := by
  induction actions generalizing bank with
  | nil => rfl
  | cons first rest ih => exact congrArg (· + 1) (ih _)

/-- What happens at a bank: the actions with the replies to them. -/
def history (bank : Bank α) (actions : List (CellAction α)) : Past α :=
  List.zipWith CellEvent.mk actions (bank.performAll actions).1

theorem history_concat (bank : Bank α) (actions : List (CellAction α)) (action : CellAction α) :
    bank.history (actions ++ [action]) =
      bank.history actions ++ [⟨action, ((bank.performAll actions).2.perform action).1⟩] := by
  rw [history, performAll_concat, List.zipWith_append (bank.length_performAll actions).symm]
  rfl

/-- Whether an action is about a cell: it is on the cell or makes it. -/
def IsAbout (bank : Bank α) (action : CellAction α) (cell : Nat) : Prop :=
  action.cell? = some cell ∨ action = .create ∧ cell = bank.cells.length

theorem concerns_perform_iff {bank : Bank α} {action : CellAction α} {cell : Nat} :
    CellEvent.concerns cell ⟨action, (bank.perform action).1⟩ = true ↔
      bank.IsAbout action cell := by
  rw [IsAbout]
  cases action with
  | create => simp [CellEvent.concerns, perform, CellAction.cell?, eq_comm]
  | _ =>
      simp only [CellEvent.concerns, perform, fst_change, CellAction.cell?, reduceCtorEq,
        false_and, or_false]
      cases (bank.cell? _).bind _ <;> simp

section

variable {bank : Bank α} {action : CellAction α} {cell : Nat}

/-- An action leaves a cell alone that it is not about. -/
theorem cell?_perform_of_not_isAbout (hother : ¬bank.IsAbout action cell) :
    (bank.perform action).2.cell? cell = bank.cell? cell := by
  cases action with
  | create => rw [cell?_create, if_neg fun hnew => hother (.inr ⟨rfl, hnew⟩)]
  | _ => exact cell?_change_of_ne (fun hsame => hother (.inl (congrArg some hsame.symm))) ..

/-- An action does not tell of a cell that it is not about. -/
theorem story_perform_of_not_isAbout (hother : ¬bank.IsAbout action cell) :
    Past.story [⟨action, (bank.perform action).1⟩] cell = [] := by
  rw [Past.story_singleton, if_neg]
  exact fun htells => hother (concerns_perform_iff.mp (CellEvent.concerns_of_tells htells))

end

end Bank

/-! ## Stories -/

/-- The stories that a cell can have, with what it holds at their end. -/
inductive Life (cell : Nat) : Past α → Option (OneShot α) → Prop
  | unborn : Life cell [] none
  | fresh : Life cell [.created cell] (some ⟨.pending, true, true⟩)
  /-- The value waits for its receiver. -/
  | sent (value : α) :
      Life cell [.created cell, .passed cell value .sent] (some ⟨.ready value, false, true⟩)
  /-- The value reached its receiver. -/
  | received (value : α) :
      Life cell [.created cell, .passed cell value .sent, .received cell (.value value)]
        (some ⟨.closed, false, false⟩)
  /-- The value is still in the cell, but nobody can get it any more. -/
  | discarded (value : α) :
      Life cell [.created cell, .passed cell value .sent, .receiverDropped cell]
        (some ⟨.ready value, false, false⟩)
  /-- The sender was dropped, and the receiver does not know it yet. -/
  | closed : Life cell [.created cell, .senderDropped cell] (some ⟨.closed, false, true⟩)
  /-- The receiver knows that no value comes. -/
  | noticed :
      Life cell [.created cell, .senderDropped cell, .received cell .closed]
        (some ⟨.closed, false, false⟩)
  /-- The receiver was dropped behind the sender. -/
  | unnoticed :
      Life cell [.created cell, .senderDropped cell, .receiverDropped cell]
        (some ⟨.closed, false, false⟩)
  /-- The receiver was dropped first. -/
  | deserted : Life cell [.created cell, .receiverDropped cell] (some ⟨.pending, true, false⟩)
  /-- The sender got its value back. -/
  | returned (value : α) :
      Life cell [.created cell, .receiverDropped cell, .passed cell value (.returned value)]
        (some ⟨.pending, false, false⟩)
  /-- The sender was dropped behind the receiver. -/
  | abandoned :
      Life cell [.created cell, .receiverDropped cell, .senderDropped cell]
        (some ⟨.closed, false, false⟩)

namespace Life

variable {cell : Nat} {story : Past α} {content after : OneShot α}

/-- A value makes a fresh cell hold it, and comes back from one whose receiver was dropped. -/
theorem send {value : α} {result : SendResult α} (hlife : Life cell story (some content))
    (hsend : content.send value = some (result, after)) :
    Life cell (story ++ Past.story [.passed cell value result] cell) (some after) := by
  -- Only two stories leave the cell its sender.
  cases hlife <;> cases hsend
  case fresh => simpa [OneShot.resolve] using Life.sent value
  case deserted => simpa using Life.returned value

theorem dropSender (hlife : Life cell story (some content))
    (hdrop : content.dropSender = some after) :
    Life cell (story ++ Past.story [.senderDropped cell] cell) (some after) := by
  cases hlife <;> cases hdrop
  case fresh => simpa [OneShot.resolve] using Life.closed
  case deserted => simpa [OneShot.resolve] using Life.abandoned

theorem dropReceiver (hlife : Life cell story (some content))
    (hdrop : content.dropReceiver = some after) :
    Life cell (story ++ Past.story [.receiverDropped cell] cell) (some after) := by
  cases hlife <;> cases hdrop
  case fresh => simpa using Life.deserted
  case sent value => simpa using Life.discarded value
  case closed => simpa using Life.unnoticed

theorem receive {result : ReceiveResult α} (hlife : Life cell story (some content))
    (hreceive : content.receive = some (result, after)) :
    Life cell (story ++ Past.story [.received cell result] cell) (some after) := by
  cases hlife <;> cases hreceive
  case fresh => simpa using Life.fresh
  case sent value => simpa using Life.received value
  case closed => simpa using Life.noticed

/-- A change that cannot be made does not tell of the cell. -/
theorem change {β : Type} {bank : Bank α} {reply : β → CellReply α}
    {next : OneShot α → Option (β × OneShot α)} (action : CellAction α)
    (hlife : Life cell story (bank.cell? cell))
    (hnext : ∀ content result after, Life cell story (some content) →
      next content = some (result, after) →
      Life cell (story ++ Past.story [⟨action, reply result⟩] cell) (some after)) :
    Life cell (story ++ Past.story [⟨action, (bank.change cell reply next).1⟩] cell)
      ((bank.change cell reply next).2.cell? cell) := by
  rw [Bank.change]
  split
  · rwa [Past.story_singleton, CellEvent.tells_gone, if_neg Bool.false_ne_true, List.append_nil]
  · rename_i result after hdone
    rcases Option.bind_eq_some_iff.mp hdone with ⟨content, hcontent, hafter⟩
    rw [Bank.cell?_put, if_pos rfl, hcontent]
    exact hnext content result after (hcontent ▸ hlife) hafter

/-- A new cell has no story in front of it. -/
theorem create {bank : Bank α} (hlife : Life bank.cells.length story
      (bank.cell? bank.cells.length)) :
    Life bank.cells.length (story ++ Past.story [.created bank.cells.length] bank.cells.length)
      (some .new) := by
  rw [Bank.cell?, List.getElem?_eq_none (Nat.le_refl _)] at hlife
  cases hlife
  simpa [OneShot.new] using Life.fresh

theorem perform_on {bank : Bank α} (hlife : Life cell story (bank.cell? cell))
    (action : CellAction α) (hcell : action.cell? = some cell) :
    Life cell (story ++ Past.story [⟨action, (bank.perform action).1⟩] cell)
      ((bank.perform action).2.cell? cell) := by
  cases action with
  | create => cases hcell
  | send other value =>
      obtain rfl := Option.some.inj hcell
      exact hlife.change _ fun content result after => send
  | dropSender other =>
      obtain rfl := Option.some.inj hcell
      exact hlife.change _ fun content result after hlife hdrop =>
        hlife.dropSender (by simpa using hdrop)
  | dropReceiver other =>
      obtain rfl := Option.some.inj hcell
      exact hlife.change _ fun content result after hlife hdrop =>
        hlife.dropReceiver (by simpa using hdrop)
  | ask other =>
      obtain rfl := Option.some.inj hcell
      refine hlife.change _ fun content result after hlife hask => ?_
      rcases Option.map_eq_some_iff.mp hask with ⟨pending, -, hpair⟩
      obtain ⟨rfl, rfl⟩ := Prod.mk.inj hpair
      simpa using hlife
  | receive other =>
      obtain rfl := Option.some.inj hcell
      exact hlife.change _ fun content result after => receive

/-- Every action goes on with the stories of all cells. -/
theorem perform {bank : Bank α} (hlife : Life cell story (bank.cell? cell))
    (action : CellAction α) :
    Life cell (story ++ Past.story [⟨action, (bank.perform action).1⟩] cell)
      ((bank.perform action).2.cell? cell) := by
  by_cases habout : bank.IsAbout action cell
  · rcases habout with hcell | ⟨rfl, rfl⟩
    · exact hlife.perform_on action hcell
    · rw [Bank.cell?_create, if_pos rfl]
      exact hlife.create
  · rwa [Bank.story_perform_of_not_isAbout habout, List.append_nil,
      Bank.cell?_perform_of_not_isAbout habout]

end Life

/-- Whatever happens at a bank that is empty at first, what tells of a cell is one of the stories,
and it decides what the cell holds. -/
theorem Bank.life_of_history (actions : List (CellAction α)) (cell : Nat) :
    Life cell ((empty.history actions).story cell) ((empty.performAll actions).2.cell? cell) := by
  induction actions using List.reverseRecOn with
  | nil => exact .unborn
  | append_singleton actions action ih =>
      rw [history_concat, performAll_concat, Past.story_append]
      exact ih.perform action

end PhraseLedger
