import PhraseLedger.Proofs.Cells
import PhraseLedger.Proofs.Plans
import Mathlib.Data.Multiset.Bind
import Mathlib.Tactic.Abel

/-!
# Work in progress

Which thread is at a piece of work, and whether it is on a desk, does not matter for what
becomes of it.  So a workshop is a heap of pieces, of which every step puts some in the place of
others.  Every job that has not sent its result is waited for by somebody, who is the driver or
was made before it.  Hence when the driver waits for nothing, nobody is at work.

Main definitions:

- Definition {lit}`Workshop.pieces`: the pieces of work in a workshop.
- Definition {lit}`Trade`: what a step does to them.
- Definition {lit}`Frame.Advances`: what a thread can do.
- Definition {lit}`Sound`: the invariant of a workshop.

Main results:

- Theorem {lit}`Workshop.step_trades`: every step is a trade.
- Theorem {lit}`Sound.trade`: every trade keeps a workshop sound.
- Theorem {lit}`Sound.alone`: a driver that waits for nothing is alone.
- Theorem {lit}`Workshop.done_of_results?`: when all results were received, the index is free.
-/

namespace PhraseLedger

variable {α : Type}

namespace Bank

/-- A receiver that does not have to wait at a new or used cell gets the value of one whose
value was sent. -/
theorem perform_receive {bank after : Bank α} {cell : Nat} {content : OneShot α}
    {reply : ReceiveResult α} {result : Option α} (hcell : bank.cell? cell = some content)
    (hcontent : content = .new ∨ ∃ value, content = .sent value)
    (hreceive : bank.perform (.receive cell) = (.received reply, after))
    (hsettled : reply.settled? = some result) :
    ∃ value, content = .sent value ∧ result = some value ∧ after = bank.put cell .used := by
  rw [perform, change, hcell] at hreceive
  rcases hcontent with rfl | ⟨value, rfl⟩
  · obtain ⟨hreply, -⟩ := Prod.mk.inj hreceive
    obtain rfl := CellReply.received.inj hreply
    cases hsettled
  · obtain ⟨hreply, hafter⟩ := Prod.mk.inj hreceive
    obtain rfl := CellReply.received.inj hreply
    exact ⟨value, rfl, (Option.some.inj hsettled).symm, hafter.symm⟩

end Bank

/-! ## Pieces of work -/

/-- The cell of the job that jobs are handed out for. -/
def Client.cell? : Client α → Option Nat
  | .batch => none
  | .job cell _ => some cell

/-- A piece of work, wherever it is. -/
inductive Piece (α : Type) where
  /-- A job that is offered, waits on a desk or is run. -/
  | job (task : Task α)
  /-- Jobs that are handed out. -/
  | fan (client : Client α) (fan : Fan α)
  /-- A result that is about to be sent. -/
  | delivery (cell : Nat) (result : α)

namespace Piece

/-- The cell that the result of a piece of work is sent to. -/
def cell? : Piece α → Option Nat
  | .job task => some task.cell
  | .fan client _ => client.cell?
  | .delivery cell _ => some cell

/-- Whether a piece of work borrows the index. -/
def borrows : Piece α → Bool
  | .job _ => true
  | .fan client _ => client.cell?.isSome
  | .delivery _ _ => false

/-- The cells that a piece of work waits for. -/
def out : Piece α → List Nat
  | .fan _ progress => progress.out
  | _ => []

/-- Whether a piece of work is to answer the batch. -/
def isBatch : Piece α → Bool
  | .fan client _ => client.cell?.isNone
  | _ => false

section

variable (task : Task α) (client : Client α) (fan : Fan α) (cell : Nat) (result : α)

@[simp] theorem cell?_job : (job task).cell? = some task.cell := rfl

@[simp] theorem cell?_fan : (Piece.fan client fan).cell? = client.cell? := rfl

@[simp] theorem cell?_delivery : (delivery cell result).cell? = some cell := rfl

@[simp] theorem borrows_job : (job task).borrows = true := rfl

@[simp] theorem borrows_fan : (Piece.fan client fan).borrows = client.cell?.isSome := rfl

@[simp] theorem borrows_delivery : (delivery cell result).borrows = false := rfl

@[simp] theorem out_job : (job task).out = [] := rfl

@[simp] theorem out_fan : (Piece.fan client fan).out = fan.out := rfl

@[simp] theorem out_delivery : (delivery cell result).out = [] := rfl

@[simp] theorem isBatch_job : (job task).isBatch = false := rfl

@[simp] theorem isBatch_fan : (Piece.fan client fan).isBatch = client.cell?.isNone := rfl

@[simp] theorem isBatch_delivery : (delivery cell result).isBatch = false := rfl

end

/-- The cells that are waited for. -/
def awaited (pieces : Multiset (Piece α)) : Multiset Nat :=
  pieces.bind fun piece => piece.out

/-- The cell of a job that borrows the index. -/
def borrower? (piece : Piece α) : Option Nat :=
  if piece.borrows then piece.cell? else none

theorem count_borrows_cons (piece : Piece α) (pieces : Multiset (Piece α)) :
    ((piece ::ₘ pieces).map borrows).count true =
      piece.borrows.toNat + (pieces.map borrows).count true := by
  rw [Multiset.map_cons, Multiset.count_cons, Nat.add_comm]
  cases piece.borrows <;> rfl

/-- All that borrow the index have a cell. -/
theorem isSome_borrower? (piece : Piece α) : piece.borrower?.isSome = piece.borrows := by
  cases piece with
  | fan client fan => cases client <;> rfl
  | _ => rfl

theorem count_awaited_cons (cell : Nat) (piece : Piece α) (pieces : Multiset (Piece α)) :
    (awaited (piece ::ₘ pieces)).count cell =
      piece.out.count cell + (awaited pieces).count cell := by
  rw [awaited, Multiset.cons_bind, Multiset.count_add, Multiset.coe_count, awaited]

end Piece

/-- The piece of work that a thread is at. -/
def Frame.piece : Frame α → Piece α
  | .offering task => .job task
  | .posting task _ => .job task
  | .running task => .job task
  | .fanning client fan => .fan client fan
  | .delivering cell result => .delivery cell result

/-- The pieces of work on desks. -/
def Floor.pieces (floor : Floor α) : Multiset (Piece α) :=
  (floor.pool.workers.flatMap fun desk => desk.queue.map Piece.job : List (Piece α))

/-- The pieces of work in a workshop. -/
def Workshop.pieces (shop : Workshop α) : Multiset (Piece α) :=
  (shop.threads.flatten.map Frame.piece : Multiset (Piece α)) + shop.floor.pieces

/-! ## Trades -/

/-- What the pieces of work have in common. -/
structure Books (α : Type) where
  cells : Bank α
  /-- Number of jobs that borrow the index. -/
  borrowed : Nat

/-- What the threads have in common, apart from slots and desks. -/
def Floor.books (floor : Floor α) : Books α :=
  ⟨floor.cells, floor.pool.borrowed⟩

/-- What a step does: some pieces of work take the place of others. -/
inductive Trade : Books α → Multiset (Piece α) → Books α → Multiset (Piece α) → Prop
  /-- A job gets to another place, or a slot is freed. -/
  | move (books : Books α) : Trade books 0 books 0
  /-- A job is made. -/
  | make (cells : Bank α) (borrowed : Nat) (client : Client α) (plan : Plan α)
      (todo : List (Plan α)) (out : List Nat) (results : List (Option α)) :
      Trade ⟨cells, borrowed⟩ {.fan client ⟨plan :: todo, out, results⟩}
        ⟨(cells.perform .create).2, borrowed + 1⟩
        {.job ⟨plan, cells.cells.length⟩,
          .fan client ⟨todo, out ++ [cells.cells.length], results⟩}
  /-- A job hands out jobs. -/
  | fork (books : Books α) (cell : Nat) (jobs : List (Plan α))
      (next : List (Option α) → Plan α) :
      Trade books {.job ⟨.fork jobs next, cell⟩} books {.fan (.job cell next) ⟨jobs, [], []⟩}
  /-- The result of a job is received. -/
  | receive {cells after : Bank α} {cell : Nat} {reply : ReceiveResult α} {result : Option α}
      (hreceive : cells.perform (.receive cell) = (.received reply, after))
      (hsettled : reply.settled? = some result) (borrowed : Nat) (client : Client α)
      (out : List Nat) (results : List (Option α)) :
      Trade ⟨cells, borrowed⟩ {.fan client ⟨[], cell :: out, results⟩}
        ⟨after, borrowed⟩ {.fan client ⟨[], out, results ++ [result]⟩}
  /-- A job goes on with the results of those that it handed out. -/
  | resume (books : Books α) (cell : Nat) (next : List (Option α) → Plan α)
      (results : List (Option α)) :
      Trade books {.fan (.job cell next) ⟨[], [], results⟩} books {.job ⟨next results, cell⟩}
  /-- A job that has its result gives the index back. -/
  | giveBack (cells : Bank α) (borrowed : Nat) (cell : Nat) (result : α) :
      Trade ⟨cells, borrowed⟩ {.job ⟨.yield result, cell⟩} ⟨cells, borrowed - 1⟩
        {.delivery cell result}
  /-- The result of a job is sent. -/
  | deliver (cells : Bank α) (borrowed : Nat) (cell : Nat) (result : α) :
      Trade ⟨cells, borrowed⟩ {.delivery cell result}
        ⟨(cells.perform (.send cell result)).2, borrowed⟩ 0

/-- What is on a list with an entry replaced. -/
theorem forall_getElem?_set {β : Type} {entries : List β} {i : Nat} {entry : β}
    {holds : Nat → β → Prop} (hother : ∀ j other, entries[j]? = some other → j ≠ i → holds j other)
    (hentry : holds i entry) :
    ∀ j other, (entries.set i entry)[j]? = some other → holds j other := by
  intro j other hj
  rw [List.getElem?_set] at hj
  split_ifs at hj with hsame hbound
  · subst hsame
    obtain rfl := Option.some.inj hj
    exact hentry
  · exact hother j other hj (Ne.symm hsame)

/-- A replacement that agrees with the old entry changes nothing that is read off it. -/
theorem map_set_of_eq {β γ : Type} {entries : List β} {i : Nat} {old entry : β} {read : β → γ}
    (hold : entries[i]? = some old) (hread : read entry = read old) :
    (entries.set i entry).map read = entries.map read := by
  refine List.ext_getElem? fun j => ?_
  rw [List.getElem?_map, List.getElem?_map, List.getElem?_set]
  split_ifs with hsame hbound
  · rw [← hsame, hold, Option.map_some, Option.map_some, hread]
  · exact absurd (List.getElem?_eq_some_iff.mp hold).1 hbound
  · rfl

/-- A list of lists with one of them replaced. -/
theorem exists_flatten_set {β : Type} {lists : List (List β)} {i : Nat} {list : List β}
    (hlist : lists[i]? = some list) :
    ∃ others : Multiset β, (lists.flatten : Multiset β) = list + others ∧
      ∀ other : List β, ((lists.set i other).flatten : Multiset β) = other + others := by
  rcases List.getElem?_eq_some_iff.mp hlist with ⟨hbound, rfl⟩
  have hset : ∀ other : List β, ((lists.set i other).flatten : Multiset β) =
      other + ((lists.take i).flatten ++ (lists.drop (i + 1)).flatten : List β) := by
    intro other
    rw [List.set_eq_take_append_cons_drop, if_pos hbound, List.flatten_append,
      List.flatten_cons, ← Multiset.coe_add, ← Multiset.coe_add, ← Multiset.coe_add,
      add_left_comm]
  refine ⟨_, ?_, hset⟩
  rw [← hset, List.set_getElem_self]

/-- The entries of a kind in a list of lists, with one of these replaced. -/
theorem exists_countP_flatten_set {β : Type} {lists : List (List β)} {i : Nat} {list : List β}
    (hlist : lists[i]? = some list) (kind : β → Bool) :
    ∃ others, lists.flatten.countP kind = list.countP kind + others ∧
      ∀ other : List β, (lists.set i other).flatten.countP kind = other.countP kind + others := by
  rcases List.getElem?_eq_some_iff.mp hlist with ⟨hbound, rfl⟩
  have hset : ∀ other : List β, (lists.set i other).flatten.countP kind =
      other.countP kind +
        ((lists.take i).flatten.countP kind + (lists.drop (i + 1)).flatten.countP kind) := by
    intro other
    rw [List.set_eq_take_append_cons_drop, if_pos hbound, List.flatten_append,
      List.flatten_cons, List.countP_append, List.countP_append]
    omega
  refine ⟨_, ?_, hset⟩
  rw [← hset, List.set_getElem_self]

namespace Floor

/-- What is on the desks, with one of them replaced. -/
theorem exists_pieces_setDesk {floor : Floor α} {slot : Nat} {desk : Desk α}
    (hdesk : floor.pool.workers[slot]? = some desk) :
    ∃ others : Multiset (Piece α),
      floor.pieces = (desk.queue.map Piece.job : List (Piece α)) + others ∧
        ∀ other : Desk α, (floor.setDesk slot other).pieces =
          (other.queue.map Piece.job : List (Piece α)) + others := by
  have hqueue : (floor.pool.workers.map fun desk => desk.queue.map Piece.job)[slot]? =
      some (desk.queue.map Piece.job) := by
    rw [List.getElem?_map, hdesk]
    rfl
  rcases exists_flatten_set hqueue with ⟨others, hsame, hset⟩
  refine ⟨others, ?_, fun other => ?_⟩
  · rw [pieces, List.flatMap_def, hsame]
  · rw [pieces, setDesk, List.flatMap_def, List.map_set, hset]

/-- A desk can change without its queue. -/
theorem pieces_setDesk_of_queue_eq {floor : Floor α} {slot : Nat} {desk other : Desk α}
    (hdesk : floor.pool.workers[slot]? = some desk) (hqueue : other.queue = desk.queue) :
    (floor.setDesk slot other).pieces = floor.pieces := by
  rcases exists_pieces_setDesk hdesk with ⟨others, hsame, hset⟩
  rw [hset, hqueue, hsame]

/-- A job that is posted is on a desk. -/
theorem pieces_post {floor : Floor α} {slot : Nat} {desk : Desk α}
    (hdesk : floor.pool.workers[slot]? = some desk) (task : Task α) :
    (floor.post slot desk task).pieces = {.job task} + floor.pieces := by
  rcases exists_pieces_setDesk hdesk with ⟨others, hsame, hset⟩
  have hpost := hset { desk with queue := desk.queue ++ [task] }
  rw [List.map_append, ← Multiset.coe_add, add_right_comm, ← hsame, add_comm] at hpost
  exact hpost

end Floor

namespace Frame

/-- What a thread can do with what it is at. -/
inductive Advances (choice : Option Nat) (floor : Floor α) :
    Frame α → List (Frame α) → Floor α → Prop
  /-- The last job is made and run at once. -/
  | runLast (client : Client α) (plan : Plan α) (out : List Nat) (results : List (Option α)) :
      Advances choice floor (.fanning client ⟨[plan], out, results⟩)
        [.running ⟨plan, floor.nextCell⟩,
          .fanning client ⟨[], out ++ [floor.nextCell], results⟩]
        floor.make.countInline
  /-- Another job is made and offered. -/
  | offer (client : Client α) (plan next : Plan α) (todo : List (Plan α)) (out : List Nat)
      (results : List (Option α)) :
      Advances choice floor (.fanning client ⟨plan :: next :: todo, out, results⟩)
        [.offering ⟨plan, floor.nextCell⟩,
          .fanning client ⟨next :: todo, out ++ [floor.nextCell], results⟩]
        floor.make
  /-- A result is received. -/
  | receive {cells : Bank α} {cell : Nat} {reply : ReceiveResult α} {result : Option α}
      (hreceive : floor.cells.perform (.receive cell) = (.received reply, cells))
      (hsettled : reply.settled? = some result) (client : Client α) (out : List Nat)
      (results : List (Option α)) :
      Advances choice floor (.fanning client ⟨[], cell :: out, results⟩)
        [.fanning client ⟨[], out, results ++ [result]⟩] { floor with cells := cells }
  /-- A job goes on with the results that it waited for. -/
  | resume (cell : Nat) (next : List (Option α) → Plan α) (results : List (Option α)) :
      Advances choice floor (.fanning (.job cell next) ⟨[], [], results⟩)
        [.running ⟨next results, cell⟩] floor
  /-- No worker takes a job. -/
  | refuse (hchoice : choice = none) (task : Task α) :
      Advances choice floor (.offering task) [.running task] floor.countInline
  /-- A slot is claimed for a job. -/
  | claim {slot : Nat} {desk : Desk α} (hchoice : choice = some slot)
      (hdesk : floor.pool.workers[slot]? = some desk) (hfree : desk.claimed = false)
      (task : Task α) :
      Advances choice floor (.offering task) [.posting task slot]
        (floor.setDesk slot { desk with claimed := true })
  /-- The worker of a slot that was claimed is gone. -/
  | miss {slot : Nat} {desk : Desk α} (hdesk : floor.pool.workers[slot]? = some desk)
      (hgone : desk.serving = false) (task : Task α) :
      Advances choice floor (.posting task slot) [.running task] floor.countInline
  /-- A job is put on the desk of a worker. -/
  | post {slot : Nat} {desk : Desk α} (hdesk : floor.pool.workers[slot]? = some desk)
      (hserving : desk.serving = true) (hroom : desk.queue.length < Desk.capacity)
      (task : Task α) :
      Advances choice floor (.posting task slot) [] (floor.post slot desk task)
  /-- A job that is done gives the index back. -/
  | giveBack (cell : Nat) (result : α) :
      Advances choice floor (.running ⟨.yield result, cell⟩) [.delivering cell result]
        floor.giveBack
  /-- A job hands out jobs. -/
  | fork (cell : Nat) (jobs : List (Plan α)) (next : List (Option α) → Plan α) :
      Advances choice floor (.running ⟨.fork jobs next, cell⟩)
        [.fanning (.job cell next) ⟨jobs, [], []⟩] floor
  /-- A result is sent. -/
  | deliver (cell : Nat) (result : α) :
      Advances choice floor (.delivering cell result) []
        { floor with cells := (floor.cells.perform (.send cell result)).2 }

/-- A thread that takes a step does what it can do. -/
theorem advances_of_advance {choice : Option Nat} {floor after : Floor α} {frame : Frame α}
    {frames : List (Frame α)} (hadvance : frame.advance choice floor = some (frames, after)) :
    Advances choice floor frame frames after := by
  cases frame with
  | fanning client fan =>
      rcases fan with ⟨_ | ⟨plan, _ | ⟨next, todo⟩⟩, out, results⟩
      · cases out with
        | nil =>
            cases client with
            | batch => cases hadvance
            | job cell next =>
                obtain ⟨rfl, rfl⟩ := Prod.mk.inj (Option.some.inj hadvance)
                exact .resume cell next results
        | cons cell out =>
            rw [advance] at hadvance
            split at hadvance
            · rename_i reply cells hreceive
              rcases Option.map_eq_some_iff.mp hadvance with ⟨result, hsettled, hafter⟩
              obtain ⟨rfl, rfl⟩ := Prod.mk.inj hafter
              exact .receive hreceive hsettled client out results
            · cases hadvance
      · obtain ⟨rfl, rfl⟩ := Prod.mk.inj (Option.some.inj hadvance)
        exact .runLast client plan out results
      · obtain ⟨rfl, rfl⟩ := Prod.mk.inj (Option.some.inj hadvance)
        exact .offer client plan next todo out results
  | offering task =>
      cases choice with
      | none =>
          obtain ⟨rfl, rfl⟩ := Prod.mk.inj (Option.some.inj hadvance)
          exact .refuse rfl task
      | some slot =>
          rw [advance] at hadvance
          split at hadvance
          · cases hadvance
          · rename_i desk hdesk
            split at hadvance
            · cases hadvance
            · rename_i hfree
              obtain ⟨rfl, rfl⟩ := Prod.mk.inj (Option.some.inj hadvance)
              exact .claim rfl hdesk (Bool.not_eq_true _ ▸ hfree) task
  | posting task slot =>
      rw [advance] at hadvance
      split at hadvance
      · cases hadvance
      · rename_i desk hdesk
        split at hadvance
        · rename_i hgone
          obtain ⟨rfl, rfl⟩ := Prod.mk.inj (Option.some.inj hadvance)
          exact .miss hdesk (Bool.not_eq_true' _ ▸ hgone) task
        · rename_i hserving
          split at hadvance
          · rename_i hroom
            obtain ⟨rfl, rfl⟩ := Prod.mk.inj (Option.some.inj hadvance)
            refine .post hdesk ?_ hroom task
            rwa [Bool.not_eq_true', Bool.not_eq_false] at hserving
          · cases hadvance
  | running task =>
      rcases task with ⟨_ | _ | ⟨jobs, next⟩, cell⟩
      · rename_i result
        obtain ⟨rfl, rfl⟩ := Prod.mk.inj (Option.some.inj hadvance)
        exact .giveBack cell result
      · cases hadvance
      · obtain ⟨rfl, rfl⟩ := Prod.mk.inj (Option.some.inj hadvance)
        exact .fork cell jobs next
  | delivering cell result =>
      obtain ⟨rfl, rfl⟩ := Prod.mk.inj (Option.some.inj hadvance)
      exact .deliver cell result

/-- What a thread has in hand, together with what is on the desks, changes by a trade. -/
theorem Advances.trades {choice : Option Nat} {floor after : Floor α} {frame : Frame α}
    {frames : List (Frame α)} (hadvances : Advances choice floor frame frames after) :
    ∃ spent gained kept, Trade floor.books spent after.books gained ∧
      {frame.piece} + floor.pieces = spent + kept ∧
      (frames.map Frame.piece : List (Piece α)) + after.pieces = gained + kept := by
  cases hadvances with
  | runLast client plan out results =>
      exact ⟨_, _, _, .make floor.cells _ client plan [] out results, rfl, rfl⟩
  | offer client plan next todo out results =>
      exact ⟨_, _, _, .make floor.cells _ client plan (next :: todo) out results, rfl, rfl⟩
  | receive hreceive hsettled client out results =>
      exact ⟨_, _, _, .receive hreceive hsettled _ client out results, rfl, rfl⟩
  | resume cell next results =>
      exact ⟨_, _, _, .resume floor.books cell next results, rfl, rfl⟩
  | refuse hchoice task =>
      exact ⟨0, 0, _, .move floor.books, (zero_add _).symm, (zero_add _).symm⟩
  | @claim slot desk hchoice hdesk hfree task =>
      have hqueue : { desk with claimed := true }.queue = desk.queue := rfl
      refine ⟨0, 0, _, .move floor.books, (zero_add _).symm, ?_⟩
      rw [Floor.pieces_setDesk_of_queue_eq hdesk hqueue]
      exact (zero_add _).symm
  | miss hdesk hgone task =>
      exact ⟨0, 0, _, .move floor.books, (zero_add _).symm, (zero_add _).symm⟩
  | post hdesk hserving hroom task =>
      refine ⟨0, 0, _, .move floor.books, (zero_add _).symm, ?_⟩
      rw [Floor.pieces_post hdesk]
      rfl
  | giveBack cell result => exact ⟨_, _, _, .giveBack floor.cells _ cell result, rfl, rfl⟩
  | fork cell jobs next => exact ⟨_, _, _, .fork floor.books cell jobs next, rfl, rfl⟩
  | deliver cell result => exact ⟨_, _, _, .deliver floor.cells _ cell result, rfl, rfl⟩

end Frame

namespace Workshop

/-- The pieces of work in a workshop, with those of one thread replaced. -/
theorem exists_pieces_set {shop : Workshop α} {thread : Nat} {frames : List (Frame α)}
    (hframes : shop.threads[thread]? = some frames) :
    ∃ others : Multiset (Piece α),
      shop.pieces = (frames.map Frame.piece : List (Piece α)) + others + shop.floor.pieces ∧
        ∀ (floor : Floor α) (other : List (Frame α)),
          (Workshop.mk floor (shop.threads.set thread other)).pieces =
            (other.map Frame.piece : List (Piece α)) + others + floor.pieces := by
  rcases exists_flatten_set hframes with ⟨others, hsame, hset⟩
  refine ⟨others.map Frame.piece, ?_, fun floor other => ?_⟩
  · rw [pieces, ← Multiset.map_coe, hsame, Multiset.map_add, Multiset.map_coe]
  · rw [pieces, ← Multiset.map_coe, hset, Multiset.map_add, Multiset.map_coe]

/-- A worker that has nothing to do frees its slot or takes a job from its desk. -/
theorem stepDesk_trades {shop after : Workshop α} {slot : Nat}
    (hidle : shop.threads[slot + 1]? = some []) (hstep : shop.stepDesk slot = some after) :
    after.floor.books = shop.floor.books ∧ after.pieces = shop.pieces := by
  rw [stepDesk] at hstep
  cases hdesk : shop.floor.pool.workers[slot]? with
  | none =>
      rw [hdesk] at hstep
      cases hstep
  | some desk =>
      rw [hdesk] at hstep
      rcases Option.map_eq_some_iff.mp hstep with ⟨⟨frames, other⟩, hturn, rfl⟩
      refine ⟨rfl, ?_⟩
      have htaken : (frames.map Frame.piece : List (Piece α)) +
          (other.queue.map Piece.job : Multiset (Piece α)) =
          (desk.queue.map Piece.job : List (Piece α)) := by
        rw [Desk.turn] at hturn
        split at hturn
        · obtain ⟨rfl, rfl⟩ := Prod.mk.inj (Option.some.inj hturn)
          exact zero_add _
        · split at hturn
          · split at hturn
            · cases hturn
            · rename_i hqueue
              obtain ⟨rfl, rfl⟩ := Prod.mk.inj (Option.some.inj hturn)
              rw [hqueue]
              rfl
          · cases hturn
      rcases exists_pieces_set hidle with ⟨others, hsame, hset⟩
      rcases Floor.exists_pieces_setDesk hdesk with ⟨onDesks, hfloor, hdesks⟩
      rw [hset, hdesks, hsame, hfloor, ← htaken, List.map_nil, Multiset.coe_nil]
      abel

/-- Every step is a trade. -/
theorem step_trades {shop after : Workshop α} {move : Move} (hstep : shop.step move = some after) :
    ∃ spent gained kept, Trade shop.floor.books spent after.floor.books gained ∧
      shop.pieces = spent + kept ∧ after.pieces = gained + kept := by
  rw [step] at hstep
  split at hstep
  · cases hstep
  · rename_i hidle
    split at hstep
    · cases hstep
    · rename_i slot hthread
      rw [hthread] at hidle
      rcases stepDesk_trades hidle hstep with ⟨hbooks, hpieces⟩
      rw [hbooks, hpieces]
      exact ⟨0, 0, _, .move _, (zero_add _).symm, (zero_add _).symm⟩
  · rename_i frame rest hframes
    rcases Option.map_eq_some_iff.mp hstep with ⟨⟨frames, floor⟩, hadvance, rfl⟩
    rcases (Frame.advances_of_advance hadvance).trades with
      ⟨spent, gained, kept, htrade, hbefore, hafter⟩
    rcases exists_pieces_set hframes with ⟨others, hsame, hset⟩
    refine ⟨spent, gained, kept + others + (rest.map Frame.piece : List (Piece α)), htrade, ?_, ?_⟩
    · rw [hsame, ← add_assoc, ← add_assoc, ← hbefore, List.map_cons, ← Multiset.cons_coe,
        ← Multiset.singleton_add]
      abel
    · rw [hset, ← add_assoc, ← add_assoc, ← hafter, List.map_append, ← Multiset.coe_add]
      abel

end Workshop

/-! ## Sound workshops -/

/-- Whether the results of the jobs of a fan are what its client is to go on with: `goal` for
the batch, and for a job something that makes it result in what is expected of it. -/
def Client.Wants (goal : List (Option α)) (expected : List α) (values : List (Option α)) :
    Client α → Prop
  | .batch => values = goal
  | .job cell next => ∃ result, expected[cell]? = some result ∧ (next values).Yields result

/-- Whether a piece of work results in what is expected of it; `expected` has an entry for every
cell.  A fan waits for cells only that are newer than that of its client. -/
def Piece.Keeps (goal : List (Option α)) (expected : List α) : Piece α → Prop
  | .job task => ∃ result, expected[task.cell]? = some result ∧ task.plan.Yields result
  | .delivery cell result => expected[cell]? = some result
  | .fan client ⟨todo, out, results⟩ =>
    (∀ cell, client.cell? = some cell → ∀ newer ∈ out, cell < newer) ∧
      ∃ coming made,
        List.Forall₂ (fun (cell : Nat) result => expected[cell]? = some result) out coming ∧
        List.Forall₂ Plan.Yields todo made ∧
        client.Wants goal expected (results ++ (coming ++ made).map some)

/-- Whether the pieces of work go with the cells and with the number of jobs that borrow the
index, which is `base` without them. -/
structure Sound (base : Nat) (goal : List (Option α)) (expected : List α) (books : Books α)
    (pieces : Multiset (Piece α)) : Prop where
  /-- There is something expected of every cell. -/
  length : expected.length = books.cells.cells.length
  /-- A cell is new, or its value was sent, or it was received. -/
  states : ∀ cell content, books.cells.cell? cell = some content →
    content = .new ∨ (∃ result, expected[cell]? = some result ∧ content = .sent result) ∨
      content = .used
  /-- Every cell that has a sender is that of one piece of work, and no other cell is that of
  any. -/
  senders : ∀ cell, (pieces.map Piece.cell?).count (some cell) =
    ((books.cells.cell? cell).any OneShot.sender).toNat
  /-- Every cell that has a receiver is waited for once, and no other cell is. -/
  receivers : ∀ cell, (Piece.awaited pieces).count cell =
    ((books.cells.cell? cell).any OneShot.receiver).toNat
  /-- The index is borrowed as often as there are jobs that have not given it back. -/
  borrowed : books.borrowed = base + (pieces.map Piece.borrows).count true
  /-- There is one batch. -/
  batch : (pieces.map Piece.isBatch).count true = 1
  /-- Every piece of work results in what is expected of it. -/
  keeps : ∀ piece ∈ pieces, piece.Keeps goal expected

section

variable {goal : List (Option α)} {expected : List α}

/-- What is expected of a cell does not change when there are more. -/
theorem expected_append {cell : Nat} {result : α} (hcell : expected[cell]? = some result)
    (more : List α) : (expected ++ more)[cell]? = some result := by
  rcases List.getElem?_eq_some_iff.mp hcell with ⟨hbound, -⟩
  rw [List.getElem?_append_left hbound, hcell]

theorem Client.Wants.append {client : Client α} {values : List (Option α)}
    (h : client.Wants goal expected values) (more : List α) :
    client.Wants goal (expected ++ more) values := by
  cases client with
  | batch => exact h
  | job cell next =>
      rcases h with ⟨result, hcell, hyields⟩
      exact ⟨result, expected_append hcell more, hyields⟩

namespace Piece

/-- More cells do not change what is expected of a piece of work. -/
theorem Keeps.append {piece : Piece α} (h : piece.Keeps goal expected) (more : List α) :
    piece.Keeps goal (expected ++ more) := by
  cases piece with
  | job task =>
      rcases h with ⟨result, hcell, hyields⟩
      exact ⟨result, expected_append hcell more, hyields⟩
  | delivery cell result => exact expected_append h more
  | fan client fan =>
      rcases h with ⟨holder, coming, made, hcoming, hmade, hwants⟩
      exact ⟨holder, coming, made, hcoming.imp fun _ _ hcell => expected_append hcell more, hmade,
        hwants.append more⟩

/-- A job that is made gets a new cell, of which its result is expected. -/
theorem Keeps.make {client : Client α} {plan : Plan α} {todo : List (Plan α)} {out : List Nat}
    {results : List (Option α)}
    (h : (Piece.fan client ⟨plan :: todo, out, results⟩).Keeps goal expected) :
    ∃ result, (Piece.job ⟨plan, expected.length⟩).Keeps goal (expected ++ [result]) ∧
      (Piece.fan client ⟨todo, out ++ [expected.length], results⟩).Keeps goal
        (expected ++ [result]) := by
  rcases h with ⟨holder, coming, _ | ⟨result, made⟩, hcoming, hmade, hwants⟩
  · cases hmade
  rcases List.forall₂_cons.mp hmade with ⟨hplan, hmade⟩
  have hnew : (expected ++ [result])[expected.length]? = some result :=
    List.getElem?_concat_length
  refine ⟨result, ⟨result, hnew, hplan⟩, ?_, coming ++ [result], made, ?_, hmade, ?_⟩
  · intro cell hcell newer hnewer
    rcases List.mem_append.mp hnewer with hold | hnewest
    · exact holder cell hcell newer hold
    · cases client with
      | batch => cases hcell
      | job own next =>
          rcases hwants with ⟨value, hvalue, -⟩
          rcases List.getElem?_eq_some_iff.mp hvalue with ⟨hbound, -⟩
          rw [List.mem_singleton.mp hnewest, ← Option.some.inj hcell]
          exact hbound
  · exact List.rel_append (hcoming.imp fun _ _ hcell => expected_append hcell [result])
      (.cons hnew .nil)
  · rw [List.append_assoc]
    exact hwants.append [result]

/-- A result that is received is the one that is expected of its cell. -/
theorem Keeps.receive {client : Client α} {cell : Nat} {result : α} {out : List Nat}
    {results : List (Option α)}
    (h : (Piece.fan client ⟨[], cell :: out, results⟩).Keeps goal expected)
    (hresult : expected[cell]? = some result) :
    (Piece.fan client ⟨[], out, results ++ [some result]⟩).Keeps goal expected := by
  rcases h with ⟨holder, _ | ⟨first, coming⟩, made, hcoming, hmade, hwants⟩
  · cases hcoming
  rcases List.forall₂_cons.mp hcoming with ⟨hfirst, hcoming⟩
  obtain rfl := Option.some.inj (hfirst.symm.trans hresult)
  refine ⟨fun holderCell hholder newer hnewer =>
    holder holderCell hholder newer (List.mem_cons_of_mem cell hnewer), coming, made, hcoming,
    hmade, ?_⟩
  simpa using hwants

/-- A job that hands out jobs expects their results. -/
theorem Keeps.fork {cell : Nat} {jobs : List (Plan α)} {next : List (Option α) → Plan α}
    (h : (Piece.job ⟨.fork jobs next, cell⟩).Keeps goal expected) :
    (Piece.fan (.job cell next) ⟨jobs, [], []⟩).Keeps goal expected := by
  rcases h with ⟨result, hcell, hyields⟩
  rcases Plan.yields_fork_iff.mp hyields with ⟨made, hmade, hnext⟩
  exact ⟨fun _ _ _ hnewer => absurd hnewer (List.not_mem_nil), [], made, .nil, hmade, result,
    hcell, hnext⟩

/-- A job that has all the results it waited for results in what is expected of it. -/
theorem Keeps.resume {cell : Nat} {next : List (Option α) → Plan α} {results : List (Option α)}
    (h : (Piece.fan (.job cell next) ⟨[], [], results⟩).Keeps goal expected) :
    (Piece.job ⟨next results, cell⟩).Keeps goal expected := by
  rcases h with ⟨-, coming, made, hcoming, hmade, result, hcell, hnext⟩
  rw [List.forall₂_nil_left_iff.mp hcoming, List.forall₂_nil_left_iff.mp hmade, List.append_nil,
    List.map_nil, List.append_nil] at hnext
  exact ⟨result, hcell, hnext⟩

/-- A job that is done has what is expected of it. -/
theorem Keeps.giveBack {cell : Nat} {result : α}
    (h : (Piece.job ⟨.yield result, cell⟩).Keeps goal expected) :
    (Piece.delivery cell result).Keeps goal expected := by
  rcases h with ⟨other, hcell, hyields⟩
  rw [Plan.yields_yield_iff.mp hyields] at hcell
  exact hcell

/-- A batch that waits for nothing has the results that it is to have. -/
theorem Keeps.done {results : List (Option α)}
    (h : (Piece.fan .batch ⟨[], [], results⟩).Keeps goal expected) : results = goal := by
  rcases h with ⟨-, coming, made, hcoming, hmade, hwants⟩
  rw [List.forall₂_nil_left_iff.mp hcoming, List.forall₂_nil_left_iff.mp hmade, Client.Wants,
    List.append_nil, List.map_nil, List.append_nil] at hwants
  exact hwants

end Piece

end

namespace Sound

variable {base : Nat} {goal : List (Option α)} {expected : List α} {books after : Books α}
  {pieces spent gained kept : Multiset (Piece α)}

/-- The cell of a piece of work has no value yet. -/
theorem cell?_eq_new (h : Sound base goal expected books pieces) {piece : Piece α} {cell : Nat}
    (hpiece : piece ∈ pieces) (hcell : piece.cell? = some cell) :
    books.cells.cell? cell = some .new := by
  have hcount : 0 < (pieces.map Piece.cell?).count (some cell) :=
    Multiset.count_pos.mpr (Multiset.mem_map.mpr ⟨piece, hpiece, hcell⟩)
  rw [h.senders] at hcount
  cases hcontent : books.cells.cell? cell with
  | none => simp [hcontent] at hcount
  | some content =>
      rcases h.states cell content hcontent with rfl | ⟨result, -, rfl⟩ | rfl
      · rfl
      · simp [hcontent, OneShot.sent] at hcount
      · simp [hcontent, OneShot.used] at hcount

/-- A cell that is waited for has no value yet, or the expected one. -/
theorem content_of_mem_out (h : Sound base goal expected books pieces) {piece : Piece α}
    {cell : Nat} (hpiece : piece ∈ pieces) (hcell : cell ∈ piece.out) :
    ∃ content, books.cells.cell? cell = some content ∧
      (content = .new ∨ ∃ result, expected[cell]? = some result ∧ content = .sent result) := by
  have hcount : 0 < (Piece.awaited pieces).count cell :=
    Multiset.count_pos.mpr (Multiset.mem_bind.mpr ⟨piece, hpiece, hcell⟩)
  rw [h.receivers] at hcount
  cases hcontent : books.cells.cell? cell with
  | none => simp [hcontent] at hcount
  | some content =>
      refine ⟨content, rfl, ?_⟩
      rcases h.states cell content hcontent with hnew | hsent | rfl
      · exact .inl hnew
      · exact .inr hsent
      · simp [hcontent, OneShot.used] at hcount

/-- A cell with no value is waited for. -/
theorem exists_mem_out (h : Sound base goal expected books pieces) {cell : Nat}
    (hcell : books.cells.cell? cell = some .new) : ∃ piece ∈ pieces, cell ∈ piece.out := by
  have hcount : 0 < (Piece.awaited pieces).count cell := by
    rw [h.receivers, hcell]
    exact Nat.one_pos
  exact Multiset.mem_bind.mp (Multiset.count_pos.mp hcount)

/-- One piece of work takes the place of another one that has the same cell and waits for the
same cells. -/
theorem replace {cells : Bank α} {borrowed next : Nat} {old new : Piece α}
    (h : Sound base goal expected ⟨cells, borrowed⟩ (old ::ₘ kept))
    (hcell : new.cell? = old.cell?) (hout : new.out = old.out)
    (hbatch : new.isBatch = old.isBatch)
    (hborrowed : next + old.borrows.toNat = borrowed + new.borrows.toNat)
    (hkeeps : old.Keeps goal expected → new.Keeps goal expected) :
    Sound base goal expected ⟨cells, next⟩ (new ::ₘ kept) := by
  constructor
  · exact h.length
  · exact h.states
  · intro cell
    rw [← h.senders cell, Multiset.map_cons, Multiset.map_cons, hcell]
  · intro cell
    rw [← h.receivers cell, Piece.count_awaited_cons, Piece.count_awaited_cons, hout]
  · have hbefore := h.borrowed
    rw [Piece.count_borrows_cons] at hbefore ⊢
    simp only at hbefore ⊢
    omega
  · rw [← h.batch, Multiset.map_cons, Multiset.map_cons, hbatch]
  · intro piece hpiece
    rcases Multiset.mem_cons.mp hpiece with rfl | hkept
    · exact hkeeps (h.keeps old (Multiset.mem_cons_self old kept))
    · exact h.keeps piece (Multiset.mem_cons_of_mem hkept)

/-- A job that is made has a new cell, which is waited for. -/
theorem make {cells : Bank α} {borrowed : Nat} {client : Client α} {plan : Plan α}
    {todo : List (Plan α)} {out : List Nat} {results : List (Option α)}
    (h : Sound base goal expected ⟨cells, borrowed⟩
      (.fan client ⟨plan :: todo, out, results⟩ ::ₘ kept)) :
    ∃ result, Sound base goal (expected ++ [result])
      ⟨(cells.perform .create).2, borrowed + 1⟩
      (.job ⟨plan, cells.cells.length⟩ ::ₘ
        .fan client ⟨todo, out ++ [cells.cells.length], results⟩ ::ₘ kept) := by
  rcases (h.keeps _ (Multiset.mem_cons_self _ _)).make with ⟨result, hjob, hfan⟩
  rw [show expected.length = cells.cells.length from h.length] at hjob hfan
  have hfree : cells.cell? cells.cells.length = none := List.getElem?_eq_none le_rfl
  refine ⟨result, ?_⟩
  constructor
  · simp [Bank.perform, h.length]
  · intro cell content hcontent
    rw [Bank.cell?_create] at hcontent
    split at hcontent
    · exact .inl (Option.some.inj hcontent).symm
    · rcases h.states cell content hcontent with hnew | ⟨value, hvalue, hsent⟩ | hused
      · exact .inl hnew
      · rcases List.getElem?_eq_some_iff.mp hvalue with ⟨hbound, -⟩
        exact .inr (.inl ⟨value, by rw [List.getElem?_append_left hbound, hvalue], hsent⟩)
      · exact .inr (.inr hused)
  · intro cell
    have hbefore := h.senders cell
    simp only [Bank.cell?_create, Multiset.map_cons, Multiset.count_cons, Piece.cell?_job,
      Piece.cell?_fan, Option.some.injEq] at hbefore ⊢
    by_cases hcell : cell = cells.cells.length
    · rw [hcell, hfree] at hbefore
      simp only [hcell, if_true, hbefore]
      rfl
    · simp only [hcell, if_false, hbefore, Nat.add_zero]
  · intro cell
    have hbefore := h.receivers cell
    simp only [Bank.cell?_create, Piece.count_awaited_cons, Piece.out_job, Piece.out_fan,
      List.count_append, List.count_nil, List.count_singleton, Nat.zero_add] at hbefore ⊢
    by_cases hcell : cell = cells.cells.length
    · rw [hcell, hfree] at hbefore
      simp only [Option.any_none, Bool.toNat_false] at hbefore
      simp [hcell, OneShot.new]
      omega
    · simp [hcell, Ne.symm hcell, hbefore]
  · have hbefore := h.borrowed
    simp only [Piece.count_borrows_cons, Piece.borrows_job, Piece.borrows_fan,
      Bool.toNat_true] at hbefore ⊢
    omega
  · rw [← h.batch]
    simp
  · intro piece hpiece
    rcases Multiset.mem_cons.mp hpiece with rfl | hpiece
    · exact hjob
    rcases Multiset.mem_cons.mp hpiece with rfl | hkept
    · exact hfan
    · exact (h.keeps piece (Multiset.mem_cons_of_mem hkept)).append [result]

/-- A result that is sent can be received. -/
theorem deliver {cells : Bank α} {borrowed cell : Nat} {result : α}
    (h : Sound base goal expected ⟨cells, borrowed⟩ (.delivery cell result ::ₘ kept)) :
    Sound base goal expected ⟨(cells.perform (.send cell result)).2, borrowed⟩ kept := by
  have hpiece := Multiset.mem_cons_self (Piece.delivery cell result) kept
  have hnew : cells.cell? cell = some .new := h.cell?_eq_new hpiece rfl
  rw [Bank.perform_send_new hnew]
  constructor
  · exact h.length.trans (Bank.length_put cells cell _).symm
  · intro other content hcontent
    rw [Bank.cell?_put] at hcontent
    split at hcontent
    · rename_i hother
      rw [hnew] at hcontent
      rw [hother]
      exact .inr (.inl ⟨result, h.keeps _ hpiece, (Option.some.inj hcontent).symm⟩)
    · exact h.states other content hcontent
  · intro other
    have hbefore := h.senders other
    simp only [Multiset.map_cons, Multiset.count_cons, Piece.cell?_delivery, Option.some.injEq,
      Bank.cell?_put] at hbefore ⊢
    by_cases hother : other = cell
    · rw [hother, hnew] at hbefore
      simp only [hother, hnew, if_true] at hbefore ⊢
      exact Nat.succ.inj hbefore
    · simpa only [hother, if_false, Nat.add_zero] using hbefore
  · intro other
    rw [Bank.cell?_put]
    have hbefore := h.receivers other
    rw [Piece.count_awaited_cons, Piece.out_delivery, List.count_nil, Nat.zero_add] at hbefore
    by_cases hother : other = cell
    · rw [if_pos hother, hbefore, hother, hnew]
      rfl
    · rw [if_neg hother, hbefore]
  · have hbefore := h.borrowed
    simpa using hbefore
  · have hbefore := h.batch
    simpa using hbefore
  · exact fun piece hkept => h.keeps piece (Multiset.mem_cons_of_mem hkept)

/-- A result is received by the one who waits for it. -/
theorem receive {cells received : Bank α} {borrowed cell : Nat} {reply : ReceiveResult α}
    {result : Option α} {client : Client α} {out : List Nat} {results : List (Option α)}
    (h : Sound base goal expected ⟨cells, borrowed⟩
      (.fan client ⟨[], cell :: out, results⟩ ::ₘ kept))
    (hreceive : cells.perform (.receive cell) = (.received reply, received))
    (hsettled : reply.settled? = some result) :
    Sound base goal expected ⟨received, borrowed⟩
      (.fan client ⟨[], out, results ++ [result]⟩ ::ₘ kept) := by
  have hpiece := Multiset.mem_cons_self (Piece.fan client ⟨[], cell :: out, results⟩) kept
  rcases h.content_of_mem_out hpiece List.mem_cons_self with ⟨content, hcontent, hstate⟩
  rcases Bank.perform_receive hcontent (hstate.imp_right fun ⟨value, _, hsent⟩ => ⟨value, hsent⟩)
    hreceive hsettled with ⟨value, rfl, rfl, rfl⟩
  have hvalue : expected[cell]? = some value := by
    rcases hstate with hnew | ⟨other, hother, hsent⟩
    · cases hnew
    · cases hsent
      exact hother
  constructor
  · exact h.length.trans (Bank.length_put cells cell _).symm
  · intro other content hother
    rw [Bank.cell?_put] at hother
    split at hother
    · rw [hcontent] at hother
      exact .inr (.inr (Option.some.inj hother).symm)
    · exact h.states other content hother
  · intro other
    have hbefore := h.senders other
    simp only [Multiset.map_cons, Piece.cell?_fan] at hbefore ⊢
    rw [hbefore, Bank.cell?_put]
    by_cases hother : other = cell
    · simp only [hother, hcontent, if_true]
      rfl
    · rw [if_neg hother]
  · intro other
    have hbefore := h.receivers other
    simp only [Piece.count_awaited_cons, Piece.out_fan, List.count_cons, Bank.cell?_put,
      beq_iff_eq] at hbefore ⊢
    by_cases hother : other = cell
    · simp only [hother, hcontent, if_true, Option.map_some] at hbefore ⊢
      have hsent : ((some (OneShot.sent value)).any OneShot.receiver).toNat = 1 := rfl
      have hused : ((some (OneShot.used (α := α))).any OneShot.receiver).toNat = 0 := rfl
      omega
    · simpa [hother, Ne.symm hother] using hbefore
  · have hbefore := h.borrowed
    simpa using hbefore
  · have hbefore := h.batch
    simpa using hbefore
  · intro piece hpiece
    rcases Multiset.mem_cons.mp hpiece with rfl | hkept
    · exact (h.keeps _ (Multiset.mem_cons_self _ _)).receive hvalue
    · exact h.keeps piece (Multiset.mem_cons_of_mem hkept)

/-- Every trade keeps a workshop sound. -/
theorem trade (h : Sound base goal expected books (spent + kept))
    (htrade : Trade books spent after gained) :
    ∃ more, Sound base goal (expected ++ more) after (gained + kept) := by
  cases htrade with
  | move books => exact ⟨[], by rwa [List.append_nil]⟩
  | make cells borrowed client plan todo out results =>
      rw [Multiset.singleton_add] at h
      rcases h.make with ⟨result, hmade⟩
      refine ⟨[result], ?_⟩
      rwa [Multiset.insert_eq_cons, Multiset.cons_add, Multiset.singleton_add]
  | fork books cell jobs next =>
      rw [Multiset.singleton_add] at h
      refine ⟨[], ?_⟩
      rw [List.append_nil, Multiset.singleton_add]
      exact h.replace rfl rfl rfl rfl Piece.Keeps.fork
  | receive hreceive hsettled borrowed client out results =>
      rw [Multiset.singleton_add] at h
      refine ⟨[], ?_⟩
      rw [List.append_nil, Multiset.singleton_add]
      exact h.receive hreceive hsettled
  | resume books cell next results =>
      rw [Multiset.singleton_add] at h
      refine ⟨[], ?_⟩
      rw [List.append_nil, Multiset.singleton_add]
      exact h.replace rfl rfl rfl rfl Piece.Keeps.resume
  | giveBack cells borrowed cell result =>
      rw [Multiset.singleton_add] at h
      refine ⟨[], ?_⟩
      rw [List.append_nil, Multiset.singleton_add]
      refine h.replace rfl rfl rfl ?_ Piece.Keeps.giveBack
      have hborrowed := h.borrowed
      simp only [Piece.count_borrows_cons, Piece.borrows_job, Bool.toNat_true] at hborrowed
      simp only [Piece.borrows_job, Piece.borrows_delivery, Bool.toNat_true, Bool.toNat_false]
      omega
  | deliver cells borrowed cell result =>
      rw [Multiset.singleton_add] at h
      refine ⟨[], ?_⟩
      rw [List.append_nil, zero_add]
      exact h.deliver

/-- A driver that waits for nothing is alone. -/
theorem alone {results : List (Option α)} (h : Sound base goal expected books pieces)
    (hdone : .fan .batch ⟨[], [], results⟩ ∈ pieces) :
    pieces = {.fan .batch ⟨[], [], results⟩} := by
  rcases Multiset.exists_cons_of_mem hdone with ⟨others, rfl⟩
  have hbatch : ∀ piece ∈ others, piece.isBatch = false := by
    have hcount := h.batch
    rw [Multiset.map_cons, Piece.isBatch_fan, Client.cell?, Option.isNone_none,
      Multiset.count_cons_self, Nat.add_eq_right, Multiset.count_eq_zero] at hcount
    intro piece hpiece
    rw [← Bool.not_eq_true]
    intro htrue
    exact hcount (Multiset.mem_map.mpr ⟨piece, hpiece, htrue⟩)
  -- The job of the oldest cell would be waited for by the batch or by an older job.
  have hidle : ∀ cell, ∀ piece ∈ others, piece.cell? ≠ some cell := by
    intro cell
    induction cell using Nat.strong_induction_on with
    | _ cell ih =>
        intro piece hpiece hcell
        have hnew := h.cell?_eq_new (Multiset.mem_cons_of_mem hpiece) hcell
        rcases h.exists_mem_out hnew with ⟨waiting, hwaiting, hout⟩
        rcases Multiset.mem_cons.mp hwaiting with rfl | hother
        · cases hout
        · have hkeeps := h.keeps waiting (Multiset.mem_cons_of_mem hother)
          have hnone := hbatch waiting hother
          cases waiting with
          | fan client fan =>
              rw [Piece.isBatch_fan, Option.isNone_eq_false_iff] at hnone
              rcases Option.isSome_iff_exists.mp hnone with ⟨older, holder⟩
              exact ih older (hkeeps.1 older holder cell hout) _ hother holder
          | _ => cases hout
  have hothers : others = 0 := by
    refine Multiset.eq_zero_of_forall_notMem fun piece hpiece => ?_
    have hnone : piece.cell? = none :=
      Option.eq_none_iff_forall_ne_some.mpr fun cell => hidle cell piece hpiece
    have hother := hbatch piece hpiece
    cases piece with
    | fan client fan =>
        rw [Piece.isBatch_fan, show client.cell? = none from hnone] at hother
        cases hother
    | _ => cases hnone
  rw [hothers]
  rfl

/-- All jobs that borrow the index are counted. -/
theorem borrowed_eq (h : Sound base goal expected books pieces) :
    books.borrowed = base + (pieces.filterMap Piece.borrower?).card := by
  rw [h.borrowed]
  congr 1
  clear h
  induction pieces using Multiset.induction_on with
  | empty => rfl
  | cons piece pieces ih =>
      rw [Piece.count_borrows_cons, ih, ← Piece.isSome_borrower?]
      cases hborrower : piece.borrower? with
      | none => rw [Multiset.filterMap_cons_none _ _ hborrower, Option.isSome_none,
          Bool.toNat_false, Nat.zero_add]
      | some cell => rw [Multiset.filterMap_cons_some _ _ _ hborrower, Option.isSome_some,
          Bool.toNat_true, Multiset.card_cons, Nat.add_comm]

end Sound

/-! ## Runs -/

namespace Workshop

/-- The cells of the jobs that borrow the index. -/
def borrowers (shop : Workshop α) : Multiset Nat :=
  shop.pieces.filterMap Piece.borrower?

/-- Before anything is done, there is the batch only. -/
theorem pieces_opened (jobs : List (Plan α)) {pool : Pool (List (Desk α))}
    (hpool : ∀ desk ∈ pool.workers, desk.queue = []) :
    (opened jobs pool).pieces = {.fan .batch ⟨jobs, [], []⟩} := by
  have hthreads : (pool.workers.map fun _ => ([] : List (Frame α))).flatten = [] := by
    simp
  have hdesks : pool.workers.flatMap (fun desk => desk.queue.map Piece.job) = [] := by
    rw [List.flatMap_eq_nil_iff]
    intro desk hdesk
    rw [hpool desk hdesk, List.map_nil]
  rw [pieces, Floor.pieces, opened, List.flatten_cons, hthreads, hdesks]
  rfl

/-- Before anything is done, nobody is at work. -/
theorem sound_opened {jobs : List (Plan α)} {results : List α} {pool : Pool (List (Desk α))}
    (hjobs : List.Forall₂ Plan.Yields jobs results)
    (hpool : ∀ desk ∈ pool.workers, desk.queue = []) :
    Sound pool.borrowed (results.map some) [] (opened jobs pool).floor.books
      (opened jobs pool).pieces := by
  rw [pieces_opened jobs hpool]
  constructor
  · rfl
  · intro cell content hcontent
    cases hcontent
  · intro cell
    rfl
  · intro cell
    rfl
  · rfl
  · rfl
  · intro piece hpiece
    rw [Multiset.mem_singleton.mp hpiece]
    refine ⟨?_, [], results, .nil, hjobs, rfl⟩
    rintro cell ⟨⟩

/-- A step keeps a workshop sound. -/
theorem sound_step {base : Nat} {goal : List (Option α)} {expected : List α}
    {shop after : Workshop α} {move : Move}
    (h : Sound base goal expected shop.floor.books shop.pieces)
    (hstep : shop.step move = some after) :
    ∃ expected, Sound base goal expected after.floor.books after.pieces := by
  rcases step_trades hstep with ⟨spent, gained, kept, htrade, hbefore, hafter⟩
  rw [hbefore] at h
  rcases h.trade htrade with ⟨more, hnext⟩
  rw [← hafter] at hnext
  exact ⟨_, hnext⟩

/-- Steps keep a workshop sound. -/
theorem sound_run {base : Nat} {goal : List (Option α)} {expected : List α}
    {shop after : Workshop α} {moves : List Move}
    (h : Sound base goal expected shop.floor.books shop.pieces)
    (hrun : shop.run moves = some after) :
    ∃ expected, Sound base goal expected after.floor.books after.pieces := by
  induction moves generalizing shop expected with
  | nil =>
      obtain rfl := Option.some.inj hrun
      exact ⟨expected, h⟩
  | cons move moves ih =>
      rw [run, List.foldlM_cons] at hrun
      rcases Option.bind_eq_some_iff.mp hrun with ⟨next, hstep, hrest⟩
      rcases sound_step h hstep with ⟨expected, hnext⟩
      exact ih hnext hrest

theorem results?_eq_some_iff {shop : Workshop α} {results : List (Option α)} :
    shop.results? = some results ↔
      shop.threads[0]? = some [.fanning .batch ⟨[], [], results⟩] := by
  rw [results?]
  split
  · rename_i others hthread
    rw [hthread]
    simp
  · rename_i hother
    simp only [reduceCtorEq, false_iff]
    exact hother results

/-- A driver that has all results has no other work. -/
theorem threads_of_results? {shop : Workshop α} {results : List (Option α)}
    (hresults : shop.results? = some results) :
    shop.threads = [.fanning .batch ⟨[], [], results⟩] :: shop.threads.tail := by
  rw [results?_eq_some_iff] at hresults
  cases hlist : shop.threads with
  | nil => simp [hlist] at hresults
  | cons first rest => simpa [hlist] using hresults

/-- When all results of a batch were received, the batch is all that there is. -/
theorem pieces_of_results? {base : Nat} {goal : List (Option α)} {expected : List α}
    {shop : Workshop α} {results : List (Option α)}
    (h : Sound base goal expected shop.floor.books shop.pieces)
    (hresults : shop.results? = some results) :
    shop.pieces = {.fan .batch ⟨[], [], results⟩} := by
  refine h.alone (Multiset.mem_add.mpr (.inl (Multiset.mem_coe.mpr ?_)))
  rw [threads_of_results? hresults, List.flatten_cons, List.singleton_append, List.map_cons]
  exact List.mem_cons_self

/-- When all results of a batch were received, they are those of its jobs, and nobody is at
work. -/
theorem done_of_results? {base : Nat} {goal : List (Option α)} {expected : List α}
    {shop : Workshop α} {results : List (Option α)}
    (h : Sound base goal expected shop.floor.books shop.pieces)
    (hresults : shop.results? = some results) :
    results = goal ∧ shop.borrowers = 0 ∧ shop.floor.pool.borrowed = base ∧
      (∀ content ∈ shop.floor.cells.cells, content = .used) ∧
      (∀ frames ∈ shop.threads.tail, frames = []) ∧
      ∀ desk ∈ shop.floor.pool.workers, desk.queue = [] := by
  have halone := pieces_of_results? h hresults
  have hdone : Piece.fan .batch ⟨[], [], results⟩ ∈ shop.pieces := by
    rw [halone]
    exact Multiset.mem_singleton_self _
  have hpieces : shop.pieces = {Piece.fan .batch ⟨[], [], results⟩} +
      ((shop.threads.tail.flatten.map Frame.piece : List (Piece α)) + shop.floor.pieces) := by
    rw [pieces, threads_of_results? hresults, List.flatten_cons, List.map_append,
      ← Multiset.coe_add, add_assoc]
    rfl
  have hborrowers : shop.borrowers = 0 := by
    rw [borrowers, halone]
    rfl
  have hidle : (shop.threads.tail.flatten.map Frame.piece ++
      shop.floor.pool.workers.flatMap fun desk => desk.queue.map Piece.job) = [] := by
    have hothers := hpieces.symm.trans halone
    rwa [add_eq_left, Floor.pieces, Multiset.coe_add, Multiset.coe_eq_zero] at hothers
  rcases List.append_eq_nil_iff.mp hidle with ⟨hframes, hdesks⟩
  refine ⟨(h.keeps _ hdone).done, hborrowers, ?_, ?_, ?_, ?_⟩
  · have hborrowed := h.borrowed_eq
    rw [← borrowers, hborrowers] at hborrowed
    exact hborrowed
  · intro content hcontent
    rcases List.mem_iff_getElem?.mp hcontent with ⟨cell, hcell⟩
    rcases h.states cell content hcell with rfl | ⟨result, -, rfl⟩ | hused
    · rcases h.exists_mem_out hcell with ⟨piece, hpiece, hout⟩
      rw [halone, Multiset.mem_singleton] at hpiece
      rw [hpiece] at hout
      cases hout
    · -- A value that was sent is waited for, but nothing is.
      have hsent : shop.floor.books.cells.cell? cell = some (.sent result) := hcell
      have hreceivers := h.receivers cell
      rw [halone, hsent] at hreceivers
      cases hreceivers
    · exact hused
  · exact List.flatten_eq_nil_iff.mp (List.map_eq_nil_iff.mp hframes)
  · intro desk hdesk
    exact List.map_eq_nil_iff.mp (List.flatMap_eq_nil_iff.mp hdesks desk hdesk)

end Workshop

end PhraseLedger
