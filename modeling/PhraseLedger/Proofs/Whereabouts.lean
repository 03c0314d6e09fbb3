import PhraseLedger.Proofs.Lives

/-!
# Where values end

Whatever is done with the cells of a bank, and in whatever order, every value that is passed to a
sender is in exactly one place: with its sender again, with the receiver, lost with a receiver that
was dropped, or in the cell as long as the receiver exists.  What the halves of a cell learn is what
happened to the other half, and nothing that is done with other cells matters for it.

Main definitions:

- Definition {lit}`Whereabouts`: the places where a value can be.
- Definition {lit}`Past.lone`: what happened to a cell, as if it was the only one.
- Definition {lit}`Bank.Truthful`: what the halves of a cell are told is what happened.
- Definition {lit}`Bank.Faithful`: a cell keeps its value, is truthful, and stands by itself.

Main results:

- Theorem {lit}`Life.exists_unique_place`: a value that was passed on is in one place.
- Theorem {lit}`Bank.history_lone`: a cell does not depend on others.
- Theorem {lit}`Bank.faithful_of_history`: every cell of every bank is faithful.
-/

namespace PhraseLedger

variable {α : Type}

/-! ## Places -/

namespace CellEvent

/-- Whether a value is passed to the sender of a cell. -/
@[simp] def isPassing (cell : Nat) : CellEvent α → Bool
  | ⟨.send other _, .sent _⟩ => other = cell
  | _ => false

/-- Whether the receiver of a cell gets a value. -/
@[simp] def isReceipt (cell : Nat) : CellEvent α → Bool
  | ⟨.receive other, .received (.value _)⟩ => other = cell
  | _ => false

theorem tells_of_isPassing {cell : Nat} {event : CellEvent α}
    (hpassing : event.isPassing cell = true) : event.tells cell = true := by
  rw [isPassing.eq_def] at hpassing
  split at hpassing <;> simp_all

theorem tells_of_isReceipt {cell : Nat} {event : CellEvent α}
    (hreceipt : event.isReceipt cell = true) : event.tells cell = true := by
  rw [isReceipt.eq_def] at hreceipt
  split at hreceipt <;> simp_all

end CellEvent

/-- Where a value is that was passed to the sender of a cell. -/
inductive Whereabouts where
  /-- The sender got it back. -/
  | returned
  /-- The receiver got it. -/
  | received
  /-- The receiver was dropped without getting it. -/
  | discarded
  /-- The receiver can still get it. -/
  | held
deriving DecidableEq, Repr

/-- Whether a past puts a value into a place. -/
def Whereabouts.Fits (past : Past α) (cell : Nat) (value : α) : Whereabouts → Prop
  | .returned => .passed cell value (.returned value) ∈ past
  | .received => past.filter (·.isReceipt cell) = [.received cell (.value value)]
  | .discarded => past.Sent cell value ∧ past.ReceiverDropped cell
  | .held => past.Sent cell value ∧ past.ReceiverAlive cell

namespace Past

/-- A story has all events of a kind that tells of the cell. -/
theorem filter_story (past : Past α) {cell : Nat} {kind : CellEvent α → Bool}
    (htells : ∀ event, kind event = true → event.tells cell = true) :
    (past.story cell).filter kind = past.filter kind := by
  rw [story, List.filter_filter]
  refine List.filter_congr fun event _ => ?_
  cases hkind : kind event with
  | false => rfl
  | true => exact htells event hkind

theorem fits_story (past : Past α) (cell : Nat) (value : α) (place : Whereabouts) :
    place.Fits (past.story cell) cell value ↔ place.Fits past cell value := by
  cases place with
  | returned => exact mem_story (by simp)
  | received => rw [Whereabouts.Fits, filter_story past fun _ => CellEvent.tells_of_isReceipt]; rfl
  | discarded => exact and_congr (sent_story ..) (receiverDropped_story ..)
  | held => exact and_congr (sent_story ..) (receiverAlive_story ..)

end Past

namespace Life

variable {cell : Nat} {story : Past α} {content : Option (OneShot α)}

theorem length_passed_le_one (hlife : Life cell story content) :
    (story.filter (·.isPassing cell)).length ≤ 1 := by
  cases hlife <;> simp

/-- A value that was passed to a sender is in one place. -/
theorem exists_unique_place (hlife : Life cell story content) {value : α}
    (hpassed : story.Passed cell value) : ∃! place : Whereabouts, place.Fits story cell value := by
  rcases hpassed with ⟨result, hmem⟩
  have honly : ∃ place : Whereabouts, ∀ other : Whereabouts,
      other.Fits story cell value ↔ other = place := by
    -- Only four stories pass a value on, and each of them says where it is.
    cases hlife <;> simp at hmem
    case sent =>
      obtain ⟨rfl, rfl⟩ := hmem
      refine ⟨.held, fun other => ?_⟩
      cases other <;>
        simp [Whereabouts.Fits, Past.Sent, Past.ReceiverDropped, Past.ReceiverAlive, Past.Created]
    case received =>
      obtain ⟨rfl, rfl⟩ := hmem
      refine ⟨.received, fun other => ?_⟩
      cases other <;> simp [Whereabouts.Fits, Past.ReceiverDropped, Past.ReceiverAlive]
    case discarded =>
      obtain ⟨rfl, rfl⟩ := hmem
      refine ⟨.discarded, fun other => ?_⟩
      cases other <;> simp [Whereabouts.Fits, Past.Sent, Past.ReceiverDropped, Past.ReceiverAlive]
    case returned =>
      obtain ⟨rfl, rfl⟩ := hmem
      refine ⟨.returned, fun other => ?_⟩
      cases other <;> simp [Whereabouts.Fits, Past.Sent]
  rcases honly with ⟨place, hplace⟩
  exact ⟨place, (hplace place).mpr rfl, fun other => (hplace other).mp⟩

end Life

/-! ## What a cell holds -/

namespace Life

variable {past : Past α} {cell : Nat} {content : Option (OneShot α)}

theorem senderAlive_iff (hlife : Life cell (past.story cell) content) :
    past.SenderAlive cell ↔ content.any (·.sender) = true := by
  rw [← past.senderAlive_story]
  generalize past.story cell = story at hlife
  cases hlife <;> simp [Past.SenderAlive, Past.Created, Past.SenderDropped, Past.Passed]

theorem receiverAlive_iff (hlife : Life cell (past.story cell) content) :
    past.ReceiverAlive cell ↔ content.any (·.receiver) = true := by
  rw [← past.receiverAlive_story]
  generalize past.story cell = story at hlife
  cases hlife <;> simp [Past.ReceiverAlive, Past.Created, Past.ReceiverDropped]

theorem sent_iff (hlife : Life cell (past.story cell) content) (value : α) :
    past.Sent cell value ∧ past.ReceiverAlive cell ↔ content = some (.sent value) := by
  rw [← past.sent_story, ← past.receiverAlive_story]
  generalize past.story cell = story at hlife
  cases hlife <;>
    simp [OneShot.sent, Past.Sent, Past.ReceiverAlive, Past.Created, Past.ReceiverDropped]
  exact eq_comm

theorem closed_iff (hlife : Life cell (past.story cell) content) :
    (past.SenderDropped cell ∧ ∀ value, ¬past.Passed cell value) ∧ past.ReceiverAlive cell ↔
      content = some ⟨.closed, false, true⟩ := by
  simp only [← past.senderDropped_story, ← past.passed_story, ← past.receiverAlive_story]
  generalize past.story cell = story at hlife
  cases hlife <;>
    simp [Past.SenderDropped, Past.Passed, Past.ReceiverAlive, Past.Created, Past.ReceiverDropped]

end Life

/-! ## Replies -/

namespace Bank

variable {past : Past α} {bank : Bank α} {cell : Nat}

/-- A value is sent on as long as there is a receiver. -/
theorem send_eq_sent_iff (hlife : Life cell (past.story cell) (bank.cell? cell)) (value : α) :
    (bank.perform (.send cell value)).1 = .sent .sent ↔
      past.SenderAlive cell ∧ past.ReceiverAlive cell := by
  rw [perform, fst_change, hlife.senderAlive_iff, hlife.receiverAlive_iff]
  generalize past.story cell = story, bank.cell? cell = content at hlife
  cases hlife <;> simp [OneShot.send]

theorem send_eq_gone_iff (hlife : Life cell (past.story cell) (bank.cell? cell)) (value : α) :
    (bank.perform (.send cell value)).1 = .gone ↔ ¬past.SenderAlive cell := by
  rw [perform, fst_change, hlife.senderAlive_iff]
  generalize past.story cell = story, bank.cell? cell = content at hlife
  cases hlife <;> simp [OneShot.send]

/-- A value comes back just if there is no receiver any more. -/
theorem send_eq_returned_iff (hlife : Life cell (past.story cell) (bank.cell? cell))
    (value : α) :
    (bank.perform (.send cell value)).1 = .sent (.returned value) ↔
      past.SenderAlive cell ∧ ¬past.ReceiverAlive cell := by
  rw [perform, fst_change, hlife.senderAlive_iff, hlife.receiverAlive_iff]
  generalize past.story cell = story, bank.cell? cell = content at hlife
  cases hlife <;> simp [OneShot.send]

/-- A receiver gets the value that was sent. -/
theorem receive_eq_value_iff (hlife : Life cell (past.story cell) (bank.cell? cell))
    (value : α) :
    (bank.perform (.receive cell)).1 = .received (.value value) ↔
      past.Sent cell value ∧ past.ReceiverAlive cell := by
  rw [perform, fst_change, hlife.sent_iff]
  generalize past.story cell = story, bank.cell? cell = content at hlife
  cases hlife <;> simp [OneShot.receive, OneShot.sent]

/-- A receiver learns that no value comes just if the sender was dropped without passing one on. -/
theorem receive_eq_closed_iff (hlife : Life cell (past.story cell) (bank.cell? cell)) :
    (bank.perform (.receive cell)).1 = .received .closed ↔
      (past.SenderDropped cell ∧ ∀ value, ¬past.Passed cell value) ∧ past.ReceiverAlive cell := by
  rw [perform, fst_change, hlife.closed_iff]
  generalize past.story cell = story, bank.cell? cell = content at hlife
  cases hlife <;> simp [OneShot.receive]

/-- A receiver is told to wait as long as there is a sender. -/
theorem receive_eq_wouldBlock_iff (hlife : Life cell (past.story cell) (bank.cell? cell)) :
    (bank.perform (.receive cell)).1 = .received .wouldBlock ↔
      past.SenderAlive cell ∧ past.ReceiverAlive cell := by
  rw [perform, fst_change, hlife.senderAlive_iff, hlife.receiverAlive_iff]
  generalize past.story cell = story, bank.cell? cell = content at hlife
  cases hlife <;> simp [OneShot.receive]

theorem receive_eq_gone_iff (hlife : Life cell (past.story cell) (bank.cell? cell)) :
    (bank.perform (.receive cell)).1 = .gone ↔ ¬past.ReceiverAlive cell := by
  rw [perform, fst_change, hlife.receiverAlive_iff]
  generalize past.story cell = story, bank.cell? cell = content at hlife
  cases hlife <;> simp [OneShot.receive]

/-- A cell is pending as long as there is a sender. -/
theorem ask_eq_isPending_iff (hlife : Life cell (past.story cell) (bank.cell? cell))
    (pending : Bool) :
    (bank.perform (.ask cell)).1 = .isPending pending ↔
      (pending = true ↔ past.SenderAlive cell) ∧ past.ReceiverAlive cell := by
  rw [perform, fst_change, hlife.senderAlive_iff, hlife.receiverAlive_iff]
  generalize past.story cell = story, bank.cell? cell = content at hlife
  cases hlife <;> cases pending <;> simp [OneShot.isPending?]

/-- Only a sender that is left can be dropped. -/
theorem dropSender_eq_dropped_iff (hlife : Life cell (past.story cell) (bank.cell? cell)) :
    (bank.perform (.dropSender cell)).1 = .dropped ↔ past.SenderAlive cell := by
  rw [perform, fst_change, hlife.senderAlive_iff]
  generalize past.story cell = story, bank.cell? cell = content at hlife
  cases hlife <;> simp [OneShot.dropSender]

/-- Only a receiver that is left can be dropped. -/
theorem dropReceiver_eq_dropped_iff (hlife : Life cell (past.story cell) (bank.cell? cell)) :
    (bank.perform (.dropReceiver cell)).1 = .dropped ↔ past.ReceiverAlive cell := by
  rw [perform, fst_change, hlife.receiverAlive_iff]
  generalize past.story cell = story, bank.cell? cell = content at hlife
  cases hlife <;> simp [OneShot.dropReceiver]

/-- The sender of a settled cell is gone, and nothing settles the cell again. -/
theorem settled_for_good (hlife : Life cell (past.story cell) (bank.cell? cell))
    {content : OneShot α} (hcontent : bank.cell? cell = some content)
    (hsettled : content.state ≠ .pending) :
    bank.perform (.dropSender cell) = (.gone, bank) ∧ ∀ next, content.resolve next = content := by
  rw [hcontent] at hlife
  have hsender : content.sender = false := by
    generalize past.story cell = story at hlife
    cases hlife <;> first | rfl | exact absurd rfl hsettled
  constructor
  · rw [perform, change, hcontent, Option.bind_some, OneShot.dropSender, hsender]
    rfl
  · intro next
    rcases content with ⟨_ | value | _, sender, receiver⟩
    · exact absurd rfl hsettled
    · rfl
    · rfl

end Bank

/-! ## A cell by itself -/

/-- The same action on the cell of another number. -/
def CellAction.moveTo (number : Nat) : CellAction α → CellAction α
  | .create => .create
  | .send _ value => .send number value
  | .dropSender _ => .dropSender number
  | .dropReceiver _ => .dropReceiver number
  | .ask _ => .ask number
  | .receive _ => .receive number

/-- The same reply about the cell of another number. -/
def CellReply.moveTo (number : Nat) : CellReply α → CellReply α
  | .created _ => .created number
  | reply => reply

namespace CellEvent

/-- The same event at the cell of another number. -/
def moveTo (number : Nat) (event : CellEvent α) : CellEvent α :=
  ⟨event.action.moveTo number, event.reply.moveTo number⟩

end CellEvent

/-- What happened to a cell, as if it was the first one of its bank. -/
def Past.lone (past : Past α) (cell : Nat) : Past α :=
  (past.filter (·.concerns cell)).map (·.moveTo 0)

theorem Past.lone_append (past later : Past α) (cell : Nat) :
    Past.lone (past ++ later) cell = past.lone cell ++ Past.lone later cell := by
  rw [lone, List.filter_append, List.map_append, lone, lone]

theorem Past.lone_singleton (event : CellEvent α) (cell : Nat) :
    Past.lone [event] cell = if event.concerns cell then [event.moveTo 0] else [] := by
  rw [lone, List.filter_cons, List.filter_nil]
  split <;> rfl

namespace Bank

/-- An action does to a cell what it does to one of another bank that holds the same. -/
theorem perform_moveTo {bank other : Bank α} {cell number : Nat} {action : CellAction α}
    (hcell : other.cell? number = bank.cell? cell) (hon : action.cell? = some cell) :
    (other.perform (action.moveTo number)).1 = (bank.perform action).1.moveTo number ∧
      (other.perform (action.moveTo number)).2.cell? number =
        (bank.perform action).2.cell? cell := by
  cases action with
  | create => cases hon
  | _ =>
      obtain rfl := Option.some.inj hon
      simp only [CellAction.moveTo, perform, fst_change, cell?_change, hcell, and_true]
      cases (bank.cell? _).bind _ <;> rfl

/-- So does the action that makes the cell, if the other bank is empty. -/
theorem perform_lone {bank other : Bank α} {cell : Nat} {action : CellAction α}
    (hcell : other.cell? 0 = bank.cell? cell)
    (habout : bank.IsAbout action cell) :
    (other.perform (action.moveTo 0)).1 = (bank.perform action).1.moveTo 0 ∧
      (other.perform (action.moveTo 0)).2.cell? 0 = (bank.perform action).2.cell? cell := by
  rcases habout with hon | ⟨rfl, rfl⟩
  · exact perform_moveTo hcell hon
  · rw [cell?, cell?, List.getElem?_eq_none (Nat.le_refl _), List.getElem?_eq_none_iff] at hcell
    have hempty : other.cells.length = 0 := Nat.le_zero.mp hcell
    rw [CellAction.moveTo, cell?_create, cell?_create, if_pos hempty.symm, if_pos rfl, perform,
      hempty]
    exact ⟨rfl, rfl⟩

/-- What happens to a cell is what happens to the only cell of a bank of its own. -/
theorem history_lone (actions : List (CellAction α)) (cell : Nat) :
    empty.history (((empty.history actions).lone cell).map CellEvent.action) =
        (empty.history actions).lone cell ∧
      (empty.performAll (((empty.history actions).lone cell).map CellEvent.action)).2.cell? 0 =
        (empty.performAll actions).2.cell? cell := by
  induction actions using List.reverseRecOn with
  | nil => exact ⟨rfl, rfl⟩
  | append_singleton actions action ih =>
      rcases ih with ⟨hhistory, hcell⟩
      rw [history_concat, performAll_concat, Past.lone_append, Past.lone_singleton]
      by_cases habout : (empty.performAll actions).2.IsAbout action cell
      · rcases perform_lone hcell habout with ⟨hreply, hafter⟩
        rw [if_pos (concerns_perform_iff.mpr habout), List.map_append, List.map_singleton,
          history_concat, performAll_concat, hhistory]
        refine ⟨?_, hafter⟩
        simp only [CellEvent.moveTo, hreply]
      · rw [if_neg (mt concerns_perform_iff.mp habout), List.append_nil,
          cell?_perform_of_not_isAbout habout]
        exact ⟨hhistory, hcell⟩

/-! ## Faithful cells -/

/-- Whether what the halves of a cell are told next is what happened to it. -/
structure Truthful (past : Past α) (bank : Bank α) (cell : Nat) : Prop where
  send_sent : ∀ value, (bank.perform (.send cell value)).1 = .sent .sent ↔
    past.SenderAlive cell ∧ past.ReceiverAlive cell
  /-- A value comes back just if the receiver is gone. -/
  send_returned : ∀ value, (bank.perform (.send cell value)).1 = .sent (.returned value) ↔
    past.SenderAlive cell ∧ ¬past.ReceiverAlive cell
  send_gone : ∀ value, (bank.perform (.send cell value)).1 = .gone ↔ ¬past.SenderAlive cell
  /-- The receiver gets a value just if this value was sent. -/
  receive_value : ∀ value, (bank.perform (.receive cell)).1 = .received (.value value) ↔
    past.Sent cell value ∧ past.ReceiverAlive cell
  /-- The receiver learns that no value comes just if the sender was dropped without passing one
  on. -/
  receive_closed : (bank.perform (.receive cell)).1 = .received .closed ↔
    (past.SenderDropped cell ∧ ∀ value, ¬past.Passed cell value) ∧ past.ReceiverAlive cell
  /-- The receiver has to wait just if the sender is left, which means that it sent nothing. -/
  receive_wouldBlock : (bank.perform (.receive cell)).1 = .received .wouldBlock ↔
    past.SenderAlive cell ∧ past.ReceiverAlive cell
  receive_gone : (bank.perform (.receive cell)).1 = .gone ↔ ¬past.ReceiverAlive cell
  /-- The cell is pending just if the receiver would have to wait. -/
  ask_pending : ∀ pending, (bank.perform (.ask cell)).1 = .isPending pending ↔
    (pending = true ↔ past.SenderAlive cell) ∧ past.ReceiverAlive cell
  dropSender_dropped : (bank.perform (.dropSender cell)).1 = .dropped ↔ past.SenderAlive cell
  dropReceiver_dropped :
    (bank.perform (.dropReceiver cell)).1 = .dropped ↔ past.ReceiverAlive cell

theorem truthful_of_life {past : Past α} {bank : Bank α} {cell : Nat}
    (hlife : Life cell (past.story cell) (bank.cell? cell)) : Truthful past bank cell where
  send_sent := send_eq_sent_iff hlife
  send_returned := send_eq_returned_iff hlife
  send_gone := send_eq_gone_iff hlife
  receive_value := receive_eq_value_iff hlife
  receive_closed := receive_eq_closed_iff hlife
  receive_wouldBlock := receive_eq_wouldBlock_iff hlife
  receive_gone := receive_eq_gone_iff hlife
  ask_pending := ask_eq_isPending_iff hlife
  dropSender_dropped := dropSender_eq_dropped_iff hlife
  dropReceiver_dropped := dropReceiver_eq_dropped_iff hlife

/-- Whether a cell of a bank keeps what it was given and is true to its past. -/
structure Faithful (past : Past α) (bank : Bank α) (cell : Nat) : Prop where
  /-- Other cells have no part in what happened to the cell and in what it holds: all is as in a
  bank of its own. -/
  alone : empty.history ((past.lone cell).map CellEvent.action) = past.lone cell ∧
    (empty.performAll ((past.lone cell).map CellEvent.action)).2.cell? 0 = bank.cell? cell
  /-- One value is passed on at most. -/
  passed_once : (past.filter (·.isPassing cell)).length ≤ 1
  /-- A value that was passed on is in one place. -/
  one_place : ∀ value, past.Passed cell value →
    ∃! place : Whereabouts, place.Fits past cell value
  /-- The cell holds what the receiver can still get. -/
  holds : ∀ value,
    bank.cell? cell = some (.sent value) ↔ Whereabouts.held.Fits past cell value
  /-- What the halves are told is what happened. -/
  truthful : Truthful past bank cell
  /-- Once the cell is settled, its sender is gone, and to settle it again would not change it. -/
  settled : ∀ content, bank.cell? cell = some content → content.state ≠ .pending →
    bank.perform (.dropSender cell) = (.gone, bank) ∧ ∀ next, content.resolve next = content

/-- Whatever is done with the cells of a bank that is empty at first, and in whatever order, all of
them keep what they are given and are true to their past. -/
theorem faithful_of_history (actions : List (CellAction α)) (cell : Nat) :
    Faithful (empty.history actions) (empty.performAll actions).2 cell := by
  have hlife := life_of_history actions cell
  refine ⟨history_lone actions cell, ?_, ?_, ?_, truthful_of_life hlife, ?_⟩
  · rw [← Past.filter_story _ fun _ => CellEvent.tells_of_isPassing]
    exact hlife.length_passed_le_one
  · intro value hpassed
    have hplace := hlife.exists_unique_place ((Past.passed_story ..).mpr hpassed)
    exact (existsUnique_congr fun place => Past.fits_story ..).mp hplace
  · exact fun value => (hlife.sent_iff value).symm
  · exact fun content => settled_for_good hlife

/-- Of three values one is received, one comes back, and one is lost with its receiver. -/
theorem faithful_of_history_three_values :
    let past := (empty : Bank Nat).history
      [.create, .create, .create, .send 0 7, .dropReceiver 1, .send 1 8, .send 2 9, .receive 0,
        .dropReceiver 2]
    (∃! place : Whereabouts, place.Fits past 0 7) ∧ Whereabouts.received.Fits past 0 7 ∧
      (∃! place : Whereabouts, place.Fits past 1 8) ∧ Whereabouts.returned.Fits past 1 8 ∧
      (∃! place : Whereabouts, place.Fits past 2 9) ∧ Whereabouts.discarded.Fits past 2 9 := by
  intro past
  have hfaithful := faithful_of_history (α := Nat)
    [.create, .create, .create, .send 0 7, .dropReceiver 1, .send 1 8, .send 2 9, .receive 0,
      .dropReceiver 2]
  have hseven : past.Passed 0 7 := ⟨.sent, by decide⟩
  have height : past.Passed 1 8 := ⟨.returned 8, by decide⟩
  have hnine : past.Passed 2 9 := ⟨.sent, by decide⟩
  refine ⟨(hfaithful 0).one_place 7 hseven, rfl, (hfaithful 1).one_place 8 height, ?_,
    (hfaithful 2).one_place 9 hnine, ?_, ?_⟩
  · rw [Whereabouts.Fits]
    decide
  · rw [Past.Sent]
    decide
  · rw [Past.ReceiverDropped]
    decide

end Bank

end PhraseLedger
