import PhraseLedger.Proofs.Losses
import PhraseLedger.Proofs.Posts

/-!
# Jobs that are handed over

A thread that offers a job has it in hand until it has sent it to a worker, or has got it back.
Whatever it does then, what it has in hand, what was sent to workers and what was written down
change together.

Main definitions:

- Definition {lit}`Hall.IsExcused`: whether a job was discarded, dropped by an aborted thread, or
  sent too late.
- Definition {lit}`Strand.Moves`: what a thread can do.

Main results:

- Theorem {lit}`Strand.Moves.calls`: every job that is offered is accepted or handed back.
- Theorem {lit}`Strand.Moves.sent`: the jobs that are accepted are those that were sent.
- Theorem {lit}`Strand.Moves.fresh`: a job is sent or discarded once at most.
- Theorem {lit}`Strand.Moves.lost`: only a job that is discarded loses its result.
-/

namespace PhraseLedger

variable {α : Type}

namespace Hall

theorem nextCell_dropSenders (hall : Hall α) (cells : List Nat) :
    (hall.dropSenders cells).nextCell = hall.nextCell :=
  Bank.length_foldl_perform (fun _ => by simp) cells hall.cells

theorem nextCell_dropReceivers (hall : Hall α) (cells : List Nat) :
    (hall.dropReceivers cells).nextCell = hall.nextCell :=
  Bank.length_foldl_perform (fun _ => by simp) cells hall.cells

end Hall

/-! ## Jobs in hand -/

namespace Duty

/-- The cell of the job that is offered, until it is accepted or handed back. -/
def called : Duty α → List Nat
  | .offering _ task | .posting _ task _ => [task.cell]
  | .counting cell => [cell]
  | _ => []

/-- The cell of the job that was sent and is about to be counted. -/
def counted : Duty α → List Nat
  | .counting cell => [cell]
  | _ => []

/-- The cell of the job that can be sent to a worker still. -/
def unsent : Duty α → List Nat
  | .offering _ task | .posting _ task _ | .holding task => [task.cell]
  | _ => []

/-- The cell of the job that was handed back. -/
def held : Duty α → List Nat
  | .holding task => [task.cell]
  | _ => []

/-- The slot that was claimed for a job. -/
def slots : Duty α → List Nat
  | .posting _ _ slot => [slot]
  | _ => []

end Duty

/-- The entries for what a thread is at. -/
def Strand.each (of : Duty α → List Nat) (strand : Strand α) : List Nat :=
  match strand.duty with
  | none => []
  | some duty => of duty

@[simp] theorem Strand.each_none (of : Duty α → List Nat) (pending : List (Pending α)) :
    Strand.each of ⟨none, pending⟩ = [] := rfl

@[simp] theorem Strand.each_some (of : Duty α → List Nat) (duty : Duty α)
    (pending : List (Pending α)) : Strand.each of ⟨some duty, pending⟩ = of duty := rfl

/-- The entries for what the threads are at. -/
def House.each (of : Duty α → List Nat) (house : House α) : List Nat :=
  house.strands.flatMap (Strand.each of)

/-- The cells of the jobs that were sent to workers. -/
def Hall.placed (hall : Hall α) : List Nat :=
  hall.posts.flatMap Post.placed

/-- The cells of the jobs that were sent to workers or discarded. -/
def Hall.spent (hall : Hall α) : List Nat :=
  hall.placed ++ hall.register.discarded

theorem Hall.count_spent (hall : Hall α) (cell : Nat) :
    hall.spent.count cell = hall.placed.count cell + hall.register.discarded.count cell :=
  List.count_append

/-- A list with an entry modified is one with an entry replaced. -/
theorem modify_eq_set_of_getElem? {β : Type} {entries : List β} {i : Nat} {entry : β}
    (hentry : entries[i]? = some entry) (change : β → β) :
    entries.modify i change = entries.set i (change entry) := by
  rcases List.getElem?_eq_some_iff.mp hentry with ⟨hbound, rfl⟩
  rw [List.modify_eq_take_cons_drop hbound, List.set_eq_take_append_cons_drop, if_pos hbound]

/-- How often there is an entry, with one of the lists replaced that are put together. -/
theorem exists_count_flatMap_set {β : Type} {lists : List β} {i : Nat} {list : β}
    (hlist : lists[i]? = some list) (read : β → List Nat) (entry : Nat) :
    ∃ others, (lists.flatMap read).count entry = (read list).count entry + others ∧
      ∀ other, ((lists.set i other).flatMap read).count entry =
        (read other).count entry + others := by
  have hread : (lists.map read)[i]? = some (read list) := by
    rw [List.getElem?_map, hlist, Option.map_some]
  rcases exists_countP_flatten_set hread (· == entry) with ⟨others, hsame, hset⟩
  refine ⟨others, ?_, fun other => ?_⟩
  · rw [List.flatMap_def]
    exact hsame
  · rw [List.flatMap_def, List.map_set]
    exact hset (read other)

/-- Whether a job was sent to a worker after the worker was told to stop. -/
def Hall.IsLate (hall : Hall α) (cell : Nat) : Prop :=
  ∃ post ∈ hall.posts, cell ∈ post.late

/-- Whether a job was discarded by a caller that got it back, or dropped by a thread that was
aborted, or sent to a worker after the worker was told to stop. -/
def Hall.IsExcused (hall : Hall α) (cell : Nat) : Prop :=
  cell ∈ hall.register.discarded ∨ cell ∈ hall.register.unwound ∨ hall.IsLate cell

theorem Post.mem_late_send {post : Post α} {task : Task α} {cell : Nat} (h : cell ∈ post.late) :
    cell ∈ (post.send task).late := by
  rw [Post.send]
  split
  · exact List.mem_append_left _ h
  · exact h

/-- A job that was late stays so if no late jobs of a worker are forgotten. -/
theorem exists_late_set {posts : List (Post α)} {slot : Nat} {post next : Post α}
    (hpost : posts[slot]? = some post) (hlate : ∀ cell ∈ post.late, cell ∈ next.late) {cell : Nat}
    (h : ∃ post ∈ posts, cell ∈ post.late) : ∃ post ∈ posts.set slot next, cell ∈ post.late := by
  rcases h with ⟨other, hother, hcell⟩
  rcases List.mem_iff_getElem?.mp hother with ⟨i, hi⟩
  by_cases hsame : i = slot
  · subst hsame
    obtain rfl := Option.some.inj (hi.symm.trans hpost)
    exact ⟨next, List.mem_set (List.getElem?_eq_some_iff.mp hpost).1 next, hlate cell hcell⟩
  · exact ⟨other, List.mem_of_getElem? ((List.getElem?_set_ne (Ne.symm hsame)).trans hi), hcell⟩

/-- A job that was late stays so if a worker is aborted. -/
theorem exists_late_modify {posts : List (Post α)} {slot cell : Nat} {stance : Stance}
    (h : ∃ post ∈ posts, cell ∈ post.late) :
    ∃ post ∈ posts.modify slot (Post.quit stance), cell ∈ post.late := by
  cases hpost : posts[slot]? with
  | none => rwa [List.modify_eq_self (List.getElem?_eq_none_iff.mp hpost)]
  | some post =>
      have hlate : ∀ cell ∈ post.late, cell ∈ (post.quit stance).late := fun _ hcell => hcell
      rw [modify_eq_set_of_getElem? hpost]
      exact exists_late_set hpost hlate h

/-- How far a worker is. -/
def Post.standing (post : Post α) : Stance × Bool × Nat :=
  (post.stance, post.engaged, post.completed)

/-- The jobs that were sent to workers, with one worker replaced. -/
theorem count_placed_set {posts : List (Post α)} {slot : Nat} {post : Post α}
    (hpost : posts[slot]? = some post) (next : Post α) (cell : Nat) :
    ((posts.set slot next).flatMap Post.placed).count cell + post.placed.count cell =
      (posts.flatMap Post.placed).count cell + next.placed.count cell := by
  rcases exists_count_flatMap_set hpost Post.placed cell with ⟨others, hsame, hset⟩
  have hnext := hset next
  omega

/-- A worker that keeps its jobs can be replaced. -/
theorem count_placed_set_of_perm {posts : List (Post α)} {slot : Nat} {post next : Post α}
    (hpost : posts[slot]? = some post) (hsame : next.placed.Perm post.placed) (cell : Nat) :
    ((posts.set slot next).flatMap Post.placed).count cell =
      (posts.flatMap Post.placed).count cell := by
  have hset := count_placed_set hpost next cell
  rw [hsame.count_eq] at hset
  exact Nat.add_right_cancel hset

/-- A worker to which a job is sent has that job besides. -/
theorem count_placed_send {posts : List (Post α)} {slot : Nat} {post : Post α}
    (hpost : posts[slot]? = some post) (hin : ∀ post ∈ posts, post.InOrder)
    (hover : post.isOver = false) (task : Task α) (cell : Nat) :
    ((posts.set slot (post.send task)).flatMap Post.placed).count cell =
      (posts.flatMap Post.placed).count cell + [task.cell].count cell := by
  have hset := count_placed_set hpost (post.send task) cell
  have hplaced := Post.placed_send (hin post (List.mem_of_getElem? hpost)) hover task
  rw [hplaced.count_eq, List.count_cons, ← List.count_singleton] at hset
  omega

/-! ## Steps -/

namespace Strand

/-- What a thread can do with what it has in hand. -/
inductive Moves (hall : Hall α) : Strand α → Strand α → Hall α → Prop
  /-- It makes a job and offers it. -/
  | offer (handover : Handover) (plan : Plan α) (before after : List (Pending α)) :
      Moves hall ⟨none, before⟩ ⟨some (.offering handover ⟨plan, hall.nextCell⟩), after⟩
        { hall with
          cells := (hall.cells.perform .create).2
          register := { hall.register with calls := hall.register.calls ++ [hall.nextCell] } }
  /-- It offers a job again. -/
  | again (handover : Handover) (task : Task α) (pending : List (Pending α)) :
      Moves hall ⟨some (.holding task), pending⟩ ⟨some (.offering handover task), pending⟩
        { hall with
          register := { hall.register with calls := hall.register.calls ++ [task.cell] } }
  /-- It discards a job. -/
  | discard (task : Task α) (pending : List (Pending α)) :
      Moves hall ⟨some (.holding task), pending⟩ ⟨none, pending⟩
        { hall with
          cells := (hall.cells.perform (.dropSender task.cell)).2
          register := { hall.register with
            discarded := hall.register.discarded ++ [task.cell] } }
  /-- It gets a job back. -/
  | back {old new : Duty α} {task : Task α}
      (hold : ∃ handover, old = .offering handover task ∨ ∃ slot, old = .posting handover task slot)
      (hnew : new = .holding task ∨ new = .running task) (inline : Nat) (warnings : List String)
      (pending : List (Pending α)) :
      Moves hall ⟨some old, pending⟩ ⟨some new, pending⟩
        { hall with
          inline := inline
          warnings := warnings
          register := { hall.register with
            returned := hall.register.returned ++ [task.cell] } }
  /-- It claims a slot. -/
  | claim {slot : Nat} {post : Post α} (hpost : hall.posts[slot]? = some post)
      (hfree : post.claimed = false) (handover : Handover) (task : Task α)
      (pending : List (Pending α)) :
      Moves hall ⟨some (.offering handover task), pending⟩
        ⟨some (.posting handover task slot), pending⟩
        { hall with posts := hall.posts.set slot { post with claimed := true } }
  /-- It sends a job to a worker. -/
  | send {slot : Nat} {post : Post α} (hpost : hall.posts[slot]? = some post)
      (hover : post.isOver = false) (handover : Handover) (task : Task α)
      (pending : List (Pending α)) :
      Moves hall ⟨some (.posting handover task slot), pending⟩
        ⟨some (.counting task.cell), pending⟩
        { hall with posts := hall.posts.set slot (post.send task) }
  /-- It counts a job. -/
  | count (cell : Nat) (pending : List (Pending α)) :
      Moves hall ⟨some (.counting cell), pending⟩ ⟨none, pending⟩
        { hall with
          dispatched := hall.dispatched + 1
          register := { hall.register with accepted := hall.register.accepted ++ [cell] } }
  /-- It goes on with a job that it runs. -/
  | work {cells : Bank α} (hlength : hall.nextCell ≤ cells.cells.length)
      (hlost : ∀ cell, cells.isLost cell = true → hall.cells.isLost cell = true)
      {old new : Option (Duty α)}
      (hold : old = none ∨ ∃ task, old = some (.holding task) ∨ old = some (.running task))
      (hnew : new = none ∨ ∃ task, new = some (.running task)) (inline : Nat)
      (before after : List (Pending α)) :
      Moves hall ⟨old, before⟩ ⟨new, after⟩ { hall with cells := cells, inline := inline }

/-- A thread makes a job and hands it over. -/
theorem moves_of_make (hall : Hall α) (handover : Handover) (plan : Plan α)
    (before after : List (Pending α)) :
    Moves hall ⟨none, before⟩
      ⟨some (hall.make.handOver handover ⟨plan, hall.nextCell⟩).1, after⟩
      (hall.make.handOver handover ⟨plan, hall.nextCell⟩).2 := by
  cases handover with
  | toSelf =>
      refine .work ?_ (fun _ => Bank.isLost_of_create) (.inl rfl) (.inr ⟨_, rfl⟩) _ before after
      simp [Hall.nextCell, Bank.perform]
  | _ => exact .offer _ plan before after

/-- A caller hands a job over again. -/
theorem moves_of_again (hall : Hall α) (handover : Handover) (task : Task α)
    (pending : List (Pending α)) :
    Moves hall ⟨some (.holding task), pending⟩ ⟨some (hall.handOver handover task).1, pending⟩
      (hall.handOver handover task).2 := by
  cases handover with
  | toSelf =>
      exact .work le_rfl (fun _ hlost => hlost) (.inr ⟨task, .inl rfl⟩) (.inr ⟨task, rfl⟩) _ _ _
  | _ => exact .again _ task pending

/-- A thread gets a job back, with a warning or without. -/
theorem moves_of_takeBack {hall : Hall α} {old : Duty α} {task : Task α}
    (hold : ∃ handover, old = .offering handover task ∨ ∃ slot, old = .posting handover task slot)
    (handover : Handover) (warnings : List String) (pending : List (Pending α)) :
    Moves hall ⟨some old, pending⟩
      ⟨some (({ hall with warnings := warnings } : Hall α).takeBack handover task).1, pending⟩
      (({ hall with warnings := warnings } : Hall α).takeBack handover task).2 := by
  cases handover with
  | toWorker => exact .back hold (.inl rfl) _ warnings pending
  | _ => exact .back hold (.inr rfl) _ warnings pending

/-- A thread with a duty that takes a step does what it can do. -/
theorem moves_of_advance {choice : Option Nat} {hall after : Hall α} {duty : Duty α}
    {next : Option (Duty α)} {started : Option (Pending α)}
    (hadvance : duty.advance choice hall = some (next, started, after))
    (pending : List (Pending α)) :
    Moves hall ⟨some duty, pending⟩ ⟨next, started.toList ++ pending⟩ after := by
  cases duty with
  | offering handover task =>
      cases choice with
      | none =>
          obtain ⟨rfl, rfl, rfl⟩ := hadvance
          exact moves_of_takeBack ⟨_, .inl rfl⟩ handover hall.warnings pending
      | some slot =>
          rw [Duty.advance] at hadvance
          split at hadvance
          · cases hadvance
          · rename_i post hpost
            split at hadvance
            · cases hadvance
            · rename_i hfree
              obtain ⟨rfl, rfl, rfl⟩ := hadvance
              exact .claim hpost (Bool.not_eq_true _ ▸ hfree) handover task pending
  | posting handover task slot =>
      rw [Duty.advance] at hadvance
      split at hadvance
      · cases hadvance
      · rename_i post hpost
        split at hadvance
        · obtain ⟨rfl, rfl, rfl⟩ := hadvance
          exact moves_of_takeBack ⟨_, .inr ⟨slot, rfl⟩⟩ handover _ pending
        · rename_i hover
          split at hadvance
          · obtain ⟨rfl, rfl, rfl⟩ := hadvance
            exact .send hpost (Bool.not_eq_true _ ▸ hover) handover task pending
          · cases hadvance
  | counting cell =>
      obtain ⟨rfl, rfl, rfl⟩ := hadvance
      exact .count cell pending
  | holding task => cases hadvance
  | running task =>
      have hold : some (Duty.running task) = none ∨ ∃ other,
          some (Duty.running task) = some (.holding other) ∨
            some (Duty.running task) = some (.running other) := .inr ⟨task, .inr rfl⟩
      rcases task with ⟨result | _ | ⟨jobs, next⟩, cell⟩
      · obtain ⟨rfl, rfl, rfl⟩ := hadvance
        have hlength : (hall.cells.perform (.send cell result)).2.cells.length =
            hall.cells.cells.length := Bank.length_perform _ (by simp)
        exact .work hlength.ge (fun _ => Bank.isLost_of_perform_send) hold (.inl rfl) _ _ _
      · cases hadvance
      · obtain ⟨rfl, rfl, rfl⟩ := hadvance
        exact .work le_rfl (fun _ hlost => hlost) hold (.inl rfl) _ _ _

/-- A thread at which a job waits that takes a step does what it can do. -/
theorem moves_of_advance_pending {hall after : Hall α} {waiting : Pending α}
    {next : Option (Duty α)} {kept : Option (Pending α)}
    (hadvance : waiting.advance hall = some (next, kept, after)) (rest : List (Pending α)) :
    Moves hall ⟨none, waiting :: rest⟩ ⟨next, kept.toList ++ rest⟩ after := by
  rcases waiting with ⟨cell, goOn, ⟨_ | ⟨plan, todo⟩, out, results⟩⟩
  · cases out with
    | nil =>
        obtain ⟨rfl, rfl, rfl⟩ := hadvance
        exact .work le_rfl (fun _ hlost => hlost) (.inl rfl) (.inr ⟨_, rfl⟩) _ _ _
    | cons first out =>
        simp only [Pending.advance] at hadvance
        split at hadvance
        · rename_i reply cells hreceive
          rcases Option.map_eq_some_iff.mp hadvance with ⟨result, -, hafter⟩
          obtain ⟨rfl, rfl, rfl⟩ := hafter
          have hcells : cells = (hall.cells.perform (.receive first)).2 := by rw [hreceive]
          subst hcells
          have hlength : (hall.cells.perform (.receive first)).2.cells.length =
              hall.cells.cells.length := Bank.length_perform _ (by simp)
          exact .work hlength.ge (fun _ => Bank.isLost_of_perform_receive) (.inl rfl) (.inl rfl)
            _ _ _
        · cases hadvance
  · obtain ⟨rfl, rfl, rfl⟩ := hadvance
    exact moves_of_make hall _ plan _ _

section

variable {hall after : Hall α} {strand next : Strand α}

/-- What a thread does leaves the workers in order; `others` other threads have claimed a
slot. -/
theorem Moves.posts (hmoves : Moves hall strand next after) (others : Nat → Nat)
    (h : ∀ slot (post : Post α), hall.posts[slot]? = some post →
      post.Orderly ((strand.each Duty.slots).count slot + others slot)) :
    ∀ slot (post : Post α), after.posts[slot]? = some post →
      post.Orderly ((next.each Duty.slots).count slot + others slot) := by
  cases hmoves with
  | back hold hnew inline warnings pending =>
      rcases hnew with rfl | rfl <;>
        exact fun slot post hpost => (h slot post hpost).mono (by simp [Duty.slots])
  | @claim slot post hpost hfree handover task pending =>
      refine forall_getElem?_set (fun other post hother hne => ?_) ?_
      · simpa [Duty.slots, Ne.symm hne] using h other post hother
      · simpa [Duty.slots, Nat.add_comm] using (h slot post hpost).claim hfree
  | @send slot post hpost hover handover task pending =>
      refine forall_getElem?_set (fun other post hother hne => ?_) ?_
      · simpa [Duty.slots, Ne.symm hne] using h other post hother
      · have hslot := h slot post hpost
        rw [each_some, Duty.slots, List.count_singleton_self, Nat.add_comm 1] at hslot
        simpa [Duty.slots] using hslot.send hover task
  | work hlength hlost hold hnew inline before after =>
      rcases hnew with rfl | ⟨task, rfl⟩ <;>
        exact fun slot post hpost => (h slot post hpost).mono (by simp [Duty.slots])
  | _ => exact h

/-- Every job that is offered is accepted or handed back, or the call is not over. -/
theorem Moves.calls (hmoves : Moves hall strand next after) (cell : Nat) :
    after.register.calls.count cell + (hall.register.accepted.count cell +
        hall.register.returned.count cell + (strand.each Duty.called).count cell) =
      hall.register.calls.count cell + (after.register.accepted.count cell +
        after.register.returned.count cell + (next.each Duty.called).count cell) := by
  cases hmoves with
  | back hold hnew inline warnings pending =>
      rcases hold with ⟨handover, rfl | ⟨slot, rfl⟩⟩ <;> rcases hnew with rfl | rfl <;>
        simp [Duty.called] <;> omega
  | work hlength hlost hold hnew inline before after =>
      rcases hold with rfl | ⟨task, rfl | rfl⟩ <;> rcases hnew with rfl | ⟨other, rfl⟩ <;>
        simp [Duty.called]
  | claim => rfl
  | send => rfl
  | discard => rfl
  | _ =>
      simp [Duty.called]
      omega

/-- Every job that is accepted was sent to a worker, and only such a job. -/
theorem Moves.sent (hmoves : Moves hall strand next after)
    (h : ∀ post ∈ hall.posts, post.InOrder) (cell : Nat) :
    after.register.accepted.count cell + (next.each Duty.counted).count cell +
        hall.placed.count cell =
      hall.register.accepted.count cell + (strand.each Duty.counted).count cell +
        after.placed.count cell := by
  cases hmoves with
  | back hold hnew inline warnings pending =>
      rcases hold with ⟨handover, rfl | ⟨slot, rfl⟩⟩ <;> rcases hnew with rfl | rfl <;> rfl
  | @claim slot post hpost hfree handover task pending =>
      have hsame : ({ post with claimed := true } : Post α).placed.Perm post.placed :=
        List.Perm.refl _
      simp only [Hall.placed, each_some, Duty.counted, count_placed_set_of_perm hpost hsame]
  | @send slot post hpost hover handover task pending =>
      simp only [Hall.placed, each_some, Duty.counted, List.count_nil,
        count_placed_send hpost h hover task]
      omega
  | count counted pending => simp [Duty.counted, Hall.placed]
  | work hlength hlost hold hnew inline before after =>
      rcases hold with rfl | ⟨task, rfl | rfl⟩ <;> rcases hnew with rfl | ⟨other, rfl⟩ <;> rfl
  | _ => rfl

/-- A job that was sent, was discarded or can still be sent is in one place, and a job that was
not made yet is in none; `others` are those that other threads have. -/
theorem Moves.fresh (hmoves : Moves hall strand next after)
    (hin : ∀ post ∈ hall.posts, post.InOrder) (others : Nat → Nat)
    (h : ∀ cell,
      hall.spent.count cell + (strand.each Duty.unsent).count cell + others cell ≤ 1 ∧
      (hall.nextCell ≤ cell →
        hall.spent.count cell + (strand.each Duty.unsent).count cell + others cell = 0))
    (cell : Nat) :
    after.spent.count cell + (next.each Duty.unsent).count cell + others cell ≤ 1 ∧
      (after.nextCell ≤ cell →
        after.spent.count cell + (next.each Duty.unsent).count cell + others cell = 0) := by
  rcases h cell with ⟨hone, hnone⟩
  rw [Hall.count_spent] at hone hnone ⊢
  cases hmoves with
  | offer handover plan before after =>
      simp only [Hall.placed, each_none, each_some, Duty.unsent, List.count_nil,
        List.count_singleton, Hall.nextCell, Bank.perform, List.length_append,
        List.length_singleton, beq_iff_eq] at hone hnone ⊢
      split <;> omega
  | discard task pending =>
      have hlength : (hall.cells.perform (.dropSender task.cell)).2.cells.length =
        hall.cells.cells.length := Bank.length_perform _ (by simp)
      simp only [Hall.placed, Hall.nextCell, each_some, each_none, Duty.unsent, List.count_nil,
        List.count_append, hlength] at hone hnone ⊢
      omega
  | back hold hnew inline warnings pending =>
      rcases hold with ⟨handover, rfl | ⟨slot, rfl⟩⟩ <;> rcases hnew with rfl | rfl <;>
        simp only [Hall.placed, Hall.nextCell, each_some, Duty.unsent, List.count_nil]
          at hone hnone ⊢ <;> omega
  | @claim slot post hpost hfree handover task pending =>
      have hsame : ({ post with claimed := true } : Post α).placed.Perm post.placed :=
        List.Perm.refl _
      simp only [Hall.placed, Hall.nextCell, each_some, Duty.unsent,
        count_placed_set_of_perm hpost hsame] at hone hnone ⊢
      exact ⟨hone, hnone⟩
  | @send slot post hpost hover handover task pending =>
      simp only [Hall.placed, Hall.nextCell, each_some, Duty.unsent, List.count_nil,
        count_placed_send hpost hin hover task] at hone hnone ⊢
      omega
  | work hlength hlost hold hnew inline before after =>
      rw [Hall.nextCell] at hlength hnone
      rcases hold with rfl | ⟨task, rfl | rfl⟩ <;> rcases hnew with rfl | ⟨other, rfl⟩ <;>
        simp only [Hall.placed, Hall.nextCell, each_some, each_none, Duty.unsent, List.count_nil]
          at hone hnone ⊢ <;> omega
  | _ => exact ⟨hone, hnone⟩

/-- No thread changes how far the workers are. -/
theorem Moves.standing (hmoves : Moves hall strand next after) :
    after.posts.map Post.standing = hall.posts.map Post.standing := by
  cases hmoves with
  | claim hpost hfree handover task pending => exact map_set_of_eq hpost rfl
  | send hpost hover handover task pending => exact map_set_of_eq hpost rfl
  | _ => rfl

/-- What excuses the loss of a result stays. -/
theorem Moves.excused (hmoves : Moves hall strand next after) {cell : Nat}
    (h : hall.IsExcused cell) : after.IsExcused cell := by
  rcases h with hdiscarded | hunwound | hlate
  · refine .inl ?_
    cases hmoves with
    | discard task pending => exact List.mem_append_left _ hdiscarded
    | _ => exact hdiscarded
  · refine .inr (.inl ?_)
    cases hmoves <;> exact hunwound
  · refine .inr (.inr ?_)
    cases hmoves with
    | @claim slot post hpost hfree handover task pending =>
        have hsame : ∀ cell ∈ post.late, cell ∈ ({ post with claimed := true } : Post α).late :=
          fun _ hcell => hcell
        exact exists_late_set hpost hsame hlate
    | send hpost hover handover task pending =>
        exact exists_late_set hpost (fun _ hcell => Post.mem_late_send hcell) hlate
    | _ => exact hlate

/-- A result is lost only by a job that is discarded. -/
theorem Moves.lost (hmoves : Moves hall strand next after) {cell : Nat}
    (h : after.cells.isLost cell = true) :
    hall.cells.isLost cell = true ∨ cell ∈ after.register.discarded := by
  cases hmoves with
  | offer handover plan before after => exact .inl (Bank.isLost_of_create h)
  | discard task pending =>
      by_cases hsame : cell = task.cell
      · exact .inr (List.mem_append_right _ (List.mem_singleton.mpr hsame))
      · exact .inl (Bank.isLost_of_change_of_ne hsame h)
  | work hlength hlost hold hnew inline before after => exact .inl (hlost cell h)
  | _ => exact .inl h

/-- Only jobs that were handed back are held or discarded. -/
theorem Moves.held (hmoves : Moves hall strand next after)
    (hheld : ∀ cell ∈ strand.each Duty.held, cell ∈ hall.register.returned)
    (hdiscarded : ∀ cell ∈ hall.register.discarded, cell ∈ hall.register.returned) :
    (∀ cell ∈ hall.register.returned, cell ∈ after.register.returned) ∧
      (∀ cell ∈ next.each Duty.held, cell ∈ after.register.returned) ∧
      ∀ cell ∈ after.register.discarded, cell ∈ after.register.returned := by
  cases hmoves with
  | discard task pending =>
      refine ⟨fun _ hcell => hcell, nofun, fun cell hcell => ?_⟩
      rcases List.mem_append.mp hcell with hold | hnew
      · exact hdiscarded cell hold
      · exact hheld cell hnew
  | back hold hnew inline warnings pending =>
      refine ⟨fun _ => List.mem_append_left _, fun cell hcell => ?_,
        fun cell hcell => List.mem_append_left _ (hdiscarded cell hcell)⟩
      rcases hnew with rfl | rfl
      · exact List.mem_append_right _ hcell
      · cases hcell
  | work hlength hlost hold hnew inline before after =>
      refine ⟨fun _ hcell => hcell, ?_, hdiscarded⟩
      rcases hnew with rfl | ⟨other, rfl⟩ <;> exact nofun
  | _ => exact ⟨fun _ hcell => hcell, nofun, hdiscarded⟩

/-- The jobs that are accepted are counted, and none that a thread has dropped is forgotten. -/
theorem Moves.counts (hmoves : Moves hall strand next after) :
    after.dispatched + hall.register.accepted.length =
        hall.dispatched + after.register.accepted.length ∧
      after.register.unwound = hall.register.unwound := by
  cases hmoves with
  | count cell pending =>
      refine ⟨?_, rfl⟩
      simp only [List.length_append, List.length_singleton]
      omega
  | _ => exact ⟨rfl, rfl⟩

end

end Strand

end PhraseLedger
