import PhraseLedger.Proofs.Barrier
import Mathlib.Data.Nat.Find

/-!
# Threads that wait

A worker that waits for the results of jobs that it handed out keeps its slot, and so the other
jobs have one worker less.  Still nobody waits for ever.  A thread waits only for jobs that are
newer than the one that it is at, and what it is at is newer than what it has put off.  So the
newest job without a result is one that its thread is at, or one on a desk, and it can go on: a
job is put only on the desk of a worker whose slot was free, and such a worker has nothing else
to do.

Main definitions:

- Definition {lit}`Workshop.Orderly`: who has claimed which slot, and what waits for what.
- Definition {lit}`Workshop.CanClaim`: the slots that a thread can claim.
- Definition {lit}`Workshop.WaitsFor`: which thread waits for which other one.
- Definition {lit}`Pool.Reached`: a pool before a batch, after any batches.
- Definition {lit}`Workshop.Live`: what holds while a batch is answered.

Main results:

- Theorem {lit}`Workshop.Orderly.step`: a step keeps a workshop orderly.
- Theorem {lit}`Workshop.Orderly.exists_step`: some thread can go on until a batch is answered.
- Theorem {lit}`Workshop.Orderly.acyclic`: threads do not wait for each other in a circle.
- Theorem {lit}`Batch.live_of_run`: whatever steps the threads take, no batch is stuck.
-/

namespace PhraseLedger

variable {α : Type} {size : Nat}

namespace Frame

/-- Whether a thread has claimed a slot and has not posted its job yet. -/
def isPosting (slot : Nat) : Frame α → Bool
  | .posting _ claimed => claimed == slot
  | _ => false

/-- Whether one thing that a thread is at has a newer cell than another. -/
def Above (upper lower : Frame α) : Prop :=
  ∃ cell, upper.piece.cell? = some cell ∧ ∀ older, lower.piece.cell? = some older → older < cell

/-- What becomes of the thing that a thread is at: it goes, it stays what it was, or a newer one
comes on top of it. -/
theorem Advances.stack {choice : Option Nat} {floor after : Floor α} {frame : Frame α}
    {frames : List (Frame α)} (hadvances : Advances choice floor frame frames after) :
    (frames = [] ∧ frame.piece.isBatch = false) ∨
    (∃ next, frames = [next] ∧ next.piece.cell? = frame.piece.cell? ∧
      next.piece.isBatch = frame.piece.isBatch) ∨
    ∃ newest next, frames = [newest, next] ∧ newest.piece.cell? = some floor.nextCell ∧
      next.piece.cell? = frame.piece.cell? ∧ next.piece.isBatch = frame.piece.isBatch := by
  cases hadvances with
  | runLast client plan out results => exact .inr (.inr ⟨_, _, rfl, rfl, rfl, rfl⟩)
  | offer client plan next todo out results => exact .inr (.inr ⟨_, _, rfl, rfl, rfl, rfl⟩)
  | post hdesk hserving hroom task => exact .inl ⟨rfl, rfl⟩
  | deliver cell result => exact .inl ⟨rfl, rfl⟩
  | _ => exact .inr (.inl ⟨_, rfl, rfl, rfl⟩)

/-- What is on top of a thread stays newer than what it has put off. -/
theorem Advances.above {choice : Option Nat} {floor after : Floor α} {frame : Frame α}
    {frames rest : List (Frame α)} (hadvances : Advances choice floor frame frames after)
    (hbound : ∀ other ∈ frame :: rest, ∀ cell, other.piece.cell? = some cell →
      cell < floor.nextCell)
    (h : (frame :: rest).Pairwise Above) : (frames ++ rest).Pairwise Above := by
  rcases List.pairwise_cons.mp h with ⟨hframe, hrest⟩
  have hnext : ∀ next : Frame α, next.piece.cell? = frame.piece.cell? →
      (next :: rest).Pairwise Above := by
    intro next hcell
    refine List.pairwise_cons.mpr ⟨fun lower hlower => ?_, hrest⟩
    rcases hframe lower hlower with ⟨cell, hown, holder⟩
    exact ⟨cell, hcell.trans hown, holder⟩
  rcases hadvances.stack with ⟨rfl, -⟩ | ⟨next, rfl, hcell, -⟩ | ⟨newest, next, rfl, hnew, hcell, -⟩
  · exact hrest
  · exact hnext next hcell
  · refine List.pairwise_cons.mpr ⟨fun lower hlower => ⟨floor.nextCell, hnew, ?_⟩, hnext next hcell⟩
    intro older holder
    rcases List.mem_cons.mp hlower with rfl | hlower
    · exact hbound frame List.mem_cons_self older (hcell ▸ holder)
    · exact hbound lower (List.mem_cons_of_mem frame hlower) older holder

end Frame

/-! ## Jobs without a result -/

/-- Of the cells that have no value yet one is the newest. -/
theorem Bank.exists_newest {cells : Bank α} (hnew : ∃ cell, cells.cell? cell = some .new) :
    ∃ cell, cells.cell? cell = some .new ∧
      ∀ other, cells.cell? other = some .new → other ≤ cell := by
  classical
  have hbound : ∀ {cell}, cells.cell? cell = some .new → cell ≤ cells.cells.length :=
    fun hcell => (List.getElem?_eq_some_iff.mp hcell).1.le
  rcases hnew with ⟨cell, hcell⟩
  let unsent : Nat → Prop := fun cell => cells.cell? cell = some .new
  have hgreatest : unsent (Nat.findGreatest unsent cells.cells.length) :=
    Nat.findGreatest_spec (hbound hcell) hcell
  exact ⟨_, hgreatest, fun other hother => Nat.le_findGreatest (hbound hother) hother⟩

/-- A job without a result is somewhere. -/
theorem Sound.exists_piece {base : Nat} {goal : List (Option α)} {expected : List α}
    {books : Books α} {pieces : Multiset (Piece α)} (h : Sound base goal expected books pieces)
    {cell : Nat} (hcell : books.cells.cell? cell = some .new) :
    ∃ piece ∈ pieces, piece.cell? = some cell := by
  have hcount : 0 < (pieces.map Piece.cell?).count (some cell) := by
    rw [h.senders, hcell]
    exact Nat.one_pos
  exact Multiset.mem_map.mp (Multiset.count_pos.mp hcount)

/-- A job waits for newer ones only. -/
theorem Piece.Keeps.lt_of_mem_out {goal : List (Option α)} {expected : List α}
    {piece : Piece α} (h : piece.Keeps goal expected) {cell newer : Nat}
    (hcell : piece.cell? = some cell) (hnewer : newer ∈ piece.out) : cell < newer := by
  cases piece with
  | fan client fan => exact h.1 cell hcell newer hnewer
  | _ => cases hnewer

/-! ## Desks -/

/-- What holds of the desk of a slot that `posting` threads have claimed without having posted
their job: its worker serves, and one job at most has claimed the slot. -/
structure Desk.Orderly (posting : Nat) (desk : Desk α) : Prop where
  serving : desk.serving = true
  load : desk.claimed.toNat = posting + desk.queue.length + desk.engaged.toNat

/-- A worker that has nothing to do frees its slot, or is at the job that it has taken. -/
theorem Desk.frames_of_turn {desk next : Desk α} {frames : List (Frame α)}
    (hturn : desk.turn = some (frames, next)) :
    frames = [] ∨ next.engaged = true ∧ ∃ task, frames = [.running task] := by
  rw [turn] at hturn
  split at hturn
  · obtain ⟨rfl, -⟩ := Prod.mk.inj (Option.some.inj hturn)
    exact .inl rfl
  · split at hturn
    · split at hturn
      · cases hturn
      · rename_i task queue hqueue
        obtain ⟨rfl, rfl⟩ := Prod.mk.inj (Option.some.inj hturn)
        exact .inr ⟨rfl, task, rfl⟩
    · cases hturn

/-- A worker that has nothing to do leaves its desk in order. -/
theorem Desk.Orderly.turn {posting : Nat} {desk next : Desk α} {frames : List (Frame α)}
    (h : desk.Orderly posting) (hturn : desk.turn = some (frames, next)) :
    next.Orderly posting := by
  rcases h with ⟨hserving, hload⟩
  rw [Desk.turn] at hturn
  split at hturn
  · rename_i hengaged
    obtain ⟨-, rfl⟩ := Prod.mk.inj (Option.some.inj hturn)
    have hclaimed := desk.claimed.toNat_le
    rw [hengaged, Bool.toNat_true] at hload
    refine ⟨hserving, ?_⟩
    simp only [Bool.toNat_false]
    omega
  · rename_i hengaged
    split at hturn
    · cases hturn
    · rename_i task queue hqueue
      obtain ⟨-, rfl⟩ := Prod.mk.inj (Option.some.inj hturn)
      rw [Bool.not_eq_true] at hengaged
      rw [hengaged, hqueue, List.length_cons, Bool.toNat_false] at hload
      refine ⟨hserving, ?_⟩
      simp only [Bool.toNat_true]
      omega

/-- A step of a thread leaves the desks in order; `others` other threads have claimed a slot. -/
theorem Frame.Advances.desks {choice : Option Nat} {floor after : Floor α} {frame : Frame α}
    {frames : List (Frame α)} (hadvances : Advances choice floor frame frames after)
    (others : Nat → Nat)
    (h : ∀ slot (desk : Desk α), floor.pool.workers[slot]? = some desk →
      desk.Orderly ([frame].countP (isPosting slot) + others slot)) :
    ∀ slot (desk : Desk α), after.pool.workers[slot]? = some desk →
      desk.Orderly (frames.countP (isPosting slot) + others slot) := by
  cases hadvances with
  | @claim slot desk hchoice hdesk hfree task =>
      refine forall_getElem?_set (fun other desk hother hne => ?_) ?_
      · have hold := h other desk hother
        simpa [isPosting, Ne.symm hne] using hold
      · rcases h slot desk hdesk with ⟨hserving, hload⟩
        refine ⟨hserving, ?_⟩
        rw [hfree] at hload
        simp [isPosting] at hload ⊢
        omega
  | @miss slot desk hdesk hgone task =>
      rw [(h slot desk hdesk).serving] at hgone
      cases hgone
  | @post slot desk hdesk hserving hroom task =>
      refine forall_getElem?_set (fun other desk hother hne => ?_) ?_
      · have hold := h other desk hother
        simpa [isPosting, Ne.symm hne] using hold
      · rcases h slot desk hdesk with ⟨-, hload⟩
        refine ⟨hserving, ?_⟩
        simp [isPosting] at hload ⊢
        omega
  | _ => exact h

/-- A step of a thread does not change which workers have a job. -/
theorem Frame.Advances.engaged {choice : Option Nat} {floor after : Floor α} {frame : Frame α}
    {frames : List (Frame α)} (hadvances : Advances choice floor frame frames after) :
    after.pool.workers.map Desk.engaged = floor.pool.workers.map Desk.engaged := by
  cases hadvances with
  | claim hchoice hdesk hfree task => exact map_set_of_eq hdesk rfl
  | post hdesk hserving hroom task => exact map_set_of_eq hdesk rfl
  | _ => rfl

/-- A thread claims only slots that exist. -/
theorem Frame.Advances.posts {choice : Option Nat} {floor after : Floor α} {frame : Frame α}
    {frames : List (Frame α)} (hadvances : Advances choice floor frame frames after)
    {task : Task α} {slot : Nat} (hposting : .posting task slot ∈ frames) :
    slot < floor.pool.workers.length := by
  cases hadvances with
  | claim hchoice hdesk hfree other =>
      obtain ⟨rfl, rfl⟩ := Frame.posting.inj (List.mem_singleton.mp hposting)
      exact (List.getElem?_eq_some_iff.mp hdesk).1
  | _ => simp at hposting

/-! ## Workshops in order -/

/-- What holds of a workshop with `size` workers between the steps of its threads. -/
structure Workshop.Orderly (size : Nat) (shop : Workshop α) : Prop where
  /-- There is the driver and a thread for each desk. -/
  workers : shop.floor.pool.workers.length = size ∧ shop.threads.length = size + 1
  /-- A slot that is claimed has one job, that is to be posted, waits, or was taken. -/
  desks : ∀ slot (desk : Desk α), shop.floor.pool.workers[slot]? = some desk →
    desk.Orderly (shop.threads.flatten.countP (Frame.isPosting slot))
  /-- Only slots that exist are claimed. -/
  posts : ∀ task slot, .posting task slot ∈ shop.threads.flatten → slot < size
  /-- A worker without a job is at nothing. -/
  idle : ∀ slot (desk : Desk α), shop.floor.pool.workers[slot]? = some desk →
    desk.engaged = false → shop.threads[slot + 1]? = some []
  /-- What a thread is at is newer than what it has put off. -/
  piles : ∀ frames ∈ shop.threads, frames.Pairwise Frame.Above
  /-- The driver is at the batch, or has put it off. -/
  driver : ∃ frames batch, shop.threads[0]? = some frames ∧ batch ∈ frames ∧
    batch.piece.isBatch = true

/-- What holds of a pool between batches: no worker has anything to do but to free its slot. -/
def Pool.Tidy (pool : Pool (List (Desk α))) : Prop :=
  ∀ desk ∈ pool.workers, desk.serving = true ∧ desk.queue = [] ∧ desk.claimed = desk.engaged

theorem Pool.Tidy.atRest {pool : Pool (List (Desk α))} (h : pool.Tidy) : pool.AtRest :=
  fun desk hdesk => (h desk hdesk).2.1

namespace Workshop

theorem countP_isPosting_opened (jobs : List (Plan α)) (pool : Pool (List (Desk α)))
    (slot : Nat) : (opened jobs pool).threads.flatten.countP (Frame.isPosting slot) = 0 := by
  rw [List.countP_eq_zero]
  intro frame hframe
  have hbatch : frame = .fanning .batch ⟨jobs, [], []⟩ := by simpa [opened] using hframe
  rw [hbatch]
  exact Bool.false_ne_true

/-- A batch begins in order. -/
theorem orderly_opened (jobs : List (Plan α)) {pool : Pool (List (Desk α))} (hpool : pool.Tidy) :
    (opened jobs pool).Orderly pool.workers.length := by
  constructor
  · simp [opened]
  · intro slot desk hdesk
    rcases hpool desk (List.mem_of_getElem? hdesk) with ⟨hserving, hqueue, hclaimed⟩
    refine ⟨hserving, ?_⟩
    rw [countP_isPosting_opened, hqueue, hclaimed]
    simp
  · intro task slot hposting
    simp [opened] at hposting
  · intro slot desk hdesk hidle
    have hdesk : pool.workers[slot]? = some desk := hdesk
    rw [opened, List.getElem?_cons_succ, List.getElem?_map, hdesk]
    rfl
  · intro frames hframes
    rcases List.mem_cons.mp hframes with rfl | hframes
    · exact List.pairwise_singleton _ _
    · rcases List.mem_map.mp hframes with ⟨desk, -, rfl⟩
      exact List.Pairwise.nil
  · exact ⟨_, _, rfl, List.mem_singleton_self _, rfl⟩

/-- A piece of work has a cell that exists. -/
theorem lt_of_cell? {base : Nat} {goal : List (Option α)} {expected : List α}
    {shop : Workshop α} (hsound : Sound base goal expected shop.floor.books shop.pieces)
    {frames : List (Frame α)} (hframes : frames ∈ shop.threads) {frame : Frame α}
    (hframe : frame ∈ frames) {cell : Nat} (hcell : frame.piece.cell? = some cell) :
    cell < shop.floor.nextCell := by
  have hpiece : frame.piece ∈ shop.pieces :=
    Multiset.mem_add.mpr (.inl (List.mem_map_of_mem (List.mem_flatten_of_mem hframes hframe)))
  exact (List.getElem?_eq_some_iff.mp (hsound.cell?_eq_new hpiece hcell)).1

/-- A workshop stays in order if a thread gets to what is in order with the rest. -/
theorem Orderly.replace {shop : Workshop α} {thread : Nat} {frames : List (Frame α)}
    {floor : Floor α} (h : shop.Orderly size)
    (hlength : floor.pool.workers.length = shop.floor.pool.workers.length)
    (hdesks : ∀ slot (desk : Desk α), floor.pool.workers[slot]? = some desk →
      desk.Orderly ((shop.threads.set thread frames).flatten.countP (Frame.isPosting slot)))
    (hposts : ∀ task slot, .posting task slot ∈ frames → slot < size)
    (hidle : ∀ slot (desk : Desk α), floor.pool.workers[slot]? = some desk →
      desk.engaged = false → (shop.threads.set thread frames)[slot + 1]? = some [])
    (hpile : frames.Pairwise Frame.Above)
    (hdriver : thread = 0 → ∃ batch ∈ frames, batch.piece.isBatch = true) :
    (Workshop.mk floor (shop.threads.set thread frames)).Orderly size := by
  constructor
  · exact ⟨hlength.trans h.workers.1, List.length_set.trans h.workers.2⟩
  · exact hdesks
  · intro task slot hposting
    rcases List.mem_flatten.mp hposting with ⟨pile, hmember, hthis⟩
    rcases List.mem_or_eq_of_mem_set hmember with hold | rfl
    · exact h.posts task slot (List.mem_flatten_of_mem hold hthis)
    · exact hposts task slot hthis
  · exact hidle
  · intro pile hmember
    rcases List.mem_or_eq_of_mem_set hmember with hold | rfl
    · exact h.piles pile hold
    · exact hpile
  · rcases h.driver with ⟨pile, batch, hthread, hbatch⟩
    by_cases hfirst : thread = 0
    · rcases hdriver hfirst with ⟨batch, hmember, hbatch⟩
      refine ⟨frames, batch, ?_, hmember, hbatch⟩
      rw [hfirst, List.getElem?_set_self (List.getElem?_eq_some_iff.mp hthread).1]
    · exact ⟨pile, batch, (List.getElem?_set_ne hfirst).trans hthread, hbatch⟩

/-- A worker with nothing to do frees its slot or takes the job that waits for it. -/
theorem Orderly.stepDesk {shop after : Workshop α} {slot : Nat} (h : shop.Orderly size)
    (hthread : shop.threads[slot + 1]? = some []) (hstep : shop.stepDesk slot = some after) :
    after.Orderly size := by
  rw [Workshop.stepDesk] at hstep
  split at hstep
  · cases hstep
  rename_i desk hdesk
  rcases Option.map_eq_some_iff.mp hstep with ⟨⟨frames, next⟩, hturn, rfl⟩
  have htaken := Desk.frames_of_turn hturn
  refine h.replace List.length_set ?_ ?_ ?_ ?_ fun hfirst => absurd hfirst slot.succ_ne_zero
  · have hposting : ∀ other, (shop.threads.set (slot + 1) frames).flatten.countP
        (Frame.isPosting other) = shop.threads.flatten.countP (Frame.isPosting other) := by
      intro other
      rcases exists_countP_flatten_set hthread (Frame.isPosting other) with ⟨others, hsame, hset⟩
      rw [hset, hsame]
      rcases htaken with rfl | ⟨-, task, rfl⟩ <;> rfl
    simp only [hposting]
    exact forall_getElem?_set (fun other desk hother _ => h.desks other desk hother)
      ((h.desks slot desk hdesk).turn hturn)
  · intro task other hposting
    rcases htaken with rfl | ⟨-, taken, rfl⟩
    · cases hposting
    · cases List.mem_singleton.mp hposting
  · refine forall_getElem?_set (fun other desk hother hne hfree => ?_) fun hfree => ?_
    · rw [List.getElem?_set_ne (Nat.succ_ne_succ_iff.mpr hne.symm)]
      exact h.idle other desk hother hfree
    · rcases htaken with rfl | ⟨hengaged, -⟩
      · exact List.getElem?_set_self (List.getElem?_eq_some_iff.mp hthread).1
      · rw [hengaged] at hfree
        cases hfree
  · rcases htaken with rfl | ⟨-, task, rfl⟩
    · exact List.Pairwise.nil
    · exact List.pairwise_singleton _ _

/-- A thread that goes on with its top frame keeps a workshop in order. -/
theorem Orderly.advances {base : Nat} {goal : List (Option α)} {expected : List α}
    {shop : Workshop α} {thread : Nat} {frame : Frame α} {rest frames : List (Frame α)}
    {floor : Floor α} {choice : Option Nat} (h : shop.Orderly size)
    (hsound : Sound base goal expected shop.floor.books shop.pieces)
    (hframes : shop.threads[thread]? = some (frame :: rest))
    (hadvances : Frame.Advances choice shop.floor frame frames floor) :
    (Workshop.mk floor (shop.threads.set thread (frames ++ rest))).Orderly size := by
  have hmember := List.mem_of_getElem? hframes
  have hold : ∀ {other : Frame α}, other ∈ frame :: rest → other ∈ shop.threads.flatten :=
    fun hother => List.mem_flatten_of_mem hmember hother
  have hlength : floor.pool.workers.length = shop.floor.pool.workers.length := by
    have hmap := congrArg List.length hadvances.engaged
    rwa [List.length_map, List.length_map] at hmap
  refine h.replace hlength ?_ ?_ ?_ ?_ ?_
  · choose others hsame hset using fun slot =>
      exists_countP_flatten_set hframes (Frame.isPosting slot)
    intro slot
    rw [hset, List.countP_append, Nat.add_assoc]
    refine hadvances.desks (fun slot => rest.countP (Frame.isPosting slot) + others slot)
      (fun slot desk hdesk => ?_) slot
    rw [← Nat.add_assoc, ← List.countP_append, List.singleton_append, ← hsame]
    exact h.desks slot desk hdesk
  · intro task slot hposting
    rcases List.mem_append.mp hposting with hnew | hrest
    · exact h.workers.1 ▸ hadvances.posts hnew
    · exact h.posts task slot (hold (List.mem_cons_of_mem frame hrest))
  · intro slot desk hdesk hfree
    have hengaged := congrArg (·[slot]?) hadvances.engaged
    simp only [List.getElem?_map, hdesk, Option.map_some] at hengaged
    rcases Option.map_eq_some_iff.mp hengaged.symm with ⟨before, hbefore, hsame⟩
    have hthread := h.idle slot before hbefore (hsame.trans hfree)
    have hne : thread ≠ slot + 1 := by
      intro hthis
      rw [hthis, hthread] at hframes
      cases hframes
    rw [List.getElem?_set_ne hne]
    exact hthread
  · refine hadvances.above (fun other hother cell hcell => ?_) (h.piles _ hmember)
    exact lt_of_cell? hsound hmember hother hcell
  · intro hfirst
    rcases h.driver with ⟨pile, batch, hthread, hbatch, hisBatch⟩
    rw [← hfirst, hframes] at hthread
    obtain rfl := Option.some.inj hthread
    rcases List.mem_cons.mp hbatch with rfl | hrest
    · rcases hadvances.stack with
        ⟨-, hother⟩ | ⟨next, rfl, -, hnext⟩ | ⟨newest, next, rfl, -, -, hnext⟩
      · rw [hisBatch] at hother
        cases hother
      · exact ⟨next, List.mem_cons_self, hnext.trans hisBatch⟩
      · exact ⟨next, List.mem_cons_of_mem newest List.mem_cons_self, hnext.trans hisBatch⟩
    · exact ⟨batch, List.mem_append_right frames hrest, hisBatch⟩

/-- A step keeps a workshop in order. -/
theorem Orderly.step {base : Nat} {goal : List (Option α)} {expected : List α}
    {shop after : Workshop α} {move : Move} (h : shop.Orderly size)
    (hsound : Sound base goal expected shop.floor.books shop.pieces)
    (hstep : shop.step move = some after) : after.Orderly size := by
  rw [Workshop.step] at hstep
  split at hstep
  · cases hstep
  · rename_i hidle
    split at hstep
    · cases hstep
    · rename_i slot hthread
      rw [hthread] at hidle
      exact h.stepDesk hidle hstep
  · rename_i frame rest hframes
    rcases Option.map_eq_some_iff.mp hstep with ⟨⟨frames, floor⟩, hadvance, rfl⟩
    exact h.advances hsound hframes (Frame.advances_of_advance hadvance)

/-- Steps keep a workshop in order. -/
theorem Orderly.run {base : Nat} {goal : List (Option α)} {expected : List α}
    {shop after : Workshop α} {moves : List Move} (h : shop.Orderly size)
    (hsound : Sound base goal expected shop.floor.books shop.pieces)
    (hrun : shop.run moves = some after) : after.Orderly size := by
  induction moves generalizing shop expected with
  | nil =>
      obtain rfl := Option.some.inj hrun
      exact h
  | cons move moves ih =>
      rw [Workshop.run, List.foldlM_cons] at hrun
      rcases Option.bind_eq_some_iff.mp hrun with ⟨next, hstep, hrest⟩
      rcases sound_step hsound hstep with ⟨expected, hnext⟩
      exact ih (h.step hsound hstep) hnext hrest

/-- A batch that is answered leaves its workers with nothing to do. -/
theorem Orderly.tidy {base : Nat} {goal : List (Option α)} {expected : List α}
    {shop : Workshop α} (h : shop.Orderly size)
    (hsound : Sound base goal expected shop.floor.books shop.pieces)
    {results : List (Option α)} (hresults : shop.results? = some results) :
    shop.floor.pool.Tidy := by
  rcases done_of_results? hsound hresults with ⟨-, -, -, -, hthreads, hdesks⟩
  intro desk hdesk
  rcases List.mem_iff_getElem?.mp hdesk with ⟨slot, hslot⟩
  rcases h.desks slot desk hslot with ⟨hserving, hload⟩
  have hposting : shop.threads.flatten.countP (Frame.isPosting slot) = 0 := by
    rw [threads_of_results? hresults, List.flatten_cons, List.flatten_eq_nil_iff.mpr hthreads]
    rfl
  rw [hposting, hdesks desk hdesk, List.length_nil, Nat.zero_add] at hload
  refine ⟨hserving, hdesks desk hdesk, Bool.eq_iff_iff.mpr ?_⟩
  rw [← Bool.toNat_eq_one, hload, Bool.toNat_eq_one]

/-! ## Progress -/

/-- A slot that is claimed for a job that is not posted yet is that of a worker that has nothing
to do. -/
theorem Orderly.desk_of_posting {shop : Workshop α} (h : shop.Orderly size) {task : Task α}
    {slot : Nat} (hposting : .posting task slot ∈ shop.threads.flatten) :
    ∃ desk, shop.floor.pool.workers[slot]? = some desk ∧ desk.serving = true ∧
      desk.claimed = true ∧ desk.queue = [] ∧ desk.engaged = false := by
  obtain ⟨desk, hdesk⟩ : ∃ desk, shop.floor.pool.workers[slot]? = some desk :=
    ⟨_, List.getElem?_eq_getElem (h.workers.1 ▸ h.posts task slot hposting)⟩
  rcases h.desks slot desk hdesk with ⟨hserving, hload⟩
  have hcount : 0 < shop.threads.flatten.countP (Frame.isPosting slot) :=
    List.countP_pos_iff.mpr ⟨_, hposting, beq_self_eq_true slot⟩
  have hclaimed := desk.claimed.toNat_le
  refine ⟨desk, hdesk, hserving, ?_, ?_, ?_⟩
  · exact Bool.toNat_eq_one.mp (by omega)
  · exact List.length_eq_zero_iff.mp (by omega)
  · exact Bool.toNat_eq_zero.mp (by omega)

/-- A worker with a job on its desk is at nothing. -/
theorem Orderly.desk_of_queue {shop : Workshop α} (h : shop.Orderly size) {slot : Nat}
    {desk : Desk α} (hdesk : shop.floor.pool.workers[slot]? = some desk) {task : Task α}
    (htask : task ∈ desk.queue) : desk.serving = true ∧ desk.engaged = false := by
  rcases h.desks slot desk hdesk with ⟨hserving, hload⟩
  have hqueue := List.length_pos_of_mem htask
  have hclaimed := desk.claimed.toNat_le
  exact ⟨hserving, Bool.toNat_eq_zero.mp (by omega)⟩

/-- The slots that a thread can claim: one that is free, or none. -/
def CanClaim (shop : Workshop α) (choice : Option Nat) : Prop :=
  ∀ slot, choice = some slot →
    ∃ desk, shop.floor.pool.workers[slot]? = some desk ∧ desk.claimed = false

section

variable {base : Nat} {goal : List (Option α)} {expected : List α} {shop : Workshop α}

/-- What a thread is at can go on, unless it waits for a job or is the batch that is answered. -/
theorem Orderly.isSome_advance (h : shop.Orderly size)
    (hsound : Sound base goal expected shop.floor.books shop.pieces) {frame : Frame α}
    (hframe : frame ∈ shop.threads.flatten)
    (hout : ∀ cell ∈ frame.piece.out, shop.floor.cells.cell? cell ≠ some .new)
    (hopen : ∀ results, frame ≠ .fanning .batch ⟨[], [], results⟩) {choice : Option Nat}
    (hchoice : shop.CanClaim choice) : (frame.advance choice shop.floor).isSome = true := by
  have hpiece : frame.piece ∈ shop.pieces :=
    Multiset.mem_add.mpr (.inl (Multiset.mem_coe.mpr (List.mem_map_of_mem hframe)))
  cases frame with
  | fanning client fan =>
      rcases fan with ⟨_ | ⟨plan, _ | ⟨next, todo⟩⟩, out, results⟩
      · cases out with
        | nil =>
            cases client with
            | batch => exact absurd rfl (hopen results)
            | job cell next => rfl
        | cons cell out =>
            rcases hsound.content_of_mem_out hpiece List.mem_cons_self with
              ⟨content, hcontent, rfl | ⟨result, -, rfl⟩⟩
            · exact absurd hcontent (hout cell List.mem_cons_self)
            · have hcell : shop.floor.cells.cell? cell = some (.sent result) := hcontent
              rw [Frame.advance, Bank.perform, Bank.change, hcell]
              rfl
      · rfl
      · rfl
  | offering task =>
      cases choice with
      | none => rfl
      | some slot =>
          rcases hchoice slot rfl with ⟨desk, hdesk, hfree⟩
          rw [Frame.advance, hdesk]
          simp only [hfree]
          rfl
  | posting task slot =>
      rcases h.desk_of_posting hframe with ⟨desk, hdesk, hserving, -, hqueue, -⟩
      rw [Frame.advance, hdesk]
      simp only [hserving, hqueue]
      rfl
  | running task =>
      rcases task with ⟨plan, cell⟩
      cases plan with
      | yield result => rfl
      | abort =>
          rcases hsound.keeps _ hpiece with ⟨result, -, hyields⟩
          cases hyields
      | fork jobs next => rfl
  | delivering cell result => rfl

/-- A job on a desk is taken by the worker whose desk it is. -/
theorem Orderly.isSome_stepDesk (h : shop.Orderly size) {slot : Nat} {desk : Desk α}
    (hdesk : shop.floor.pool.workers[slot]? = some desk) {task : Task α}
    (htask : task ∈ desk.queue) (choice : Option Nat) :
    (shop.step ⟨slot + 1, choice⟩).isSome = true := by
  rcases h.desk_of_queue hdesk htask with ⟨hserving, hfree⟩
  have hturn : desk.turn.isSome = true := by
    rw [Desk.turn, hfree, hserving]
    cases hjobs : desk.queue with
    | nil =>
        rw [hjobs] at htask
        cases htask
    | cons first others => rfl
  rw [Workshop.step, h.idle slot desk hdesk hfree]
  change (shop.stepDesk slot).isSome = true
  rw [Workshop.stepDesk, hdesk]
  simp only [Option.isSome_map, hturn]

/-- A thread whose top frame can go on takes a step. -/
theorem isSome_step {thread : Nat} {frame : Frame α} {rest : List (Frame α)}
    (hthread : shop.threads[thread]? = some (frame :: rest)) {choice : Option Nat}
    (hadvance : (frame.advance choice shop.floor).isSome = true) :
    (shop.step ⟨thread, choice⟩).isSome = true := by
  rw [step, hthread]
  simp only [Option.isSome_map, hadvance]

/-- Some thread can go on until the batch is answered, whichever slot it claims. -/
theorem Orderly.exists_step (h : shop.Orderly size)
    (hsound : Sound base goal expected shop.floor.books shop.pieces)
    (hopen : shop.results? = none) :
    ∃ thread, ∀ choice, shop.CanClaim choice → (shop.step ⟨thread, choice⟩).isSome = true := by
  have hcell : ∀ {pile : List (Frame α)} {frame : Frame α} {cell : Nat}, pile ∈ shop.threads →
      frame ∈ pile → frame.piece.cell? = some cell →
      shop.floor.cells.cell? cell = some .new := by
    intro pile frame cell hpile hframe hcell
    refine hsound.cell?_eq_new (Multiset.mem_add.mpr (.inl ?_)) hcell
    exact Multiset.mem_coe.mpr (List.mem_map_of_mem (List.mem_flatten_of_mem hpile hframe))
  by_cases hnew : ∃ cell, shop.floor.cells.cell? cell = some .new
  · -- The newest job without a result is on a desk, or its thread is at it.
    rcases Bank.exists_newest hnew with ⟨cell, hcontent, hnewest⟩
    rcases hsound.exists_piece hcontent with ⟨piece, hpiece, hown⟩
    rcases Multiset.mem_add.mp hpiece with hthreads | hdesks
    · rcases List.mem_map.mp (Multiset.mem_coe.mp hthreads) with ⟨frame, hframe, rfl⟩
      rcases List.mem_flatten.mp hframe with ⟨pile, hpile, hmember⟩
      rcases List.mem_iff_getElem?.mp hpile with ⟨thread, hthread⟩
      cases pile with
      | nil => cases hmember
      | cons top rest =>
          have htop : frame = top := by
            rcases List.mem_cons.mp hmember with hsame | hrest
            · exact hsame
            · rcases List.rel_of_pairwise_cons (h.piles _ hpile) hrest with ⟨newer, hthis, holder⟩
              have hle := hnewest newer (hcell hpile List.mem_cons_self hthis)
              exact absurd (holder cell hown) (Nat.not_lt.mpr hle)
          subst htop
          refine ⟨thread, fun choice hchoice => isSome_step hthread ?_⟩
          refine h.isSome_advance hsound hframe (fun newer hout hthis => ?_) ?_ hchoice
          · have hlt := (hsound.keeps _ hpiece).lt_of_mem_out hown hout
            exact absurd hlt (Nat.not_lt.mpr (hnewest newer hthis))
          · rintro results rfl
            cases hown
    · rcases List.mem_flatMap.mp (Multiset.mem_coe.mp hdesks) with ⟨desk, hdesk, hjob⟩
      rcases List.mem_iff_getElem?.mp hdesk with ⟨slot, hdesk⟩
      rcases List.mem_map.mp hjob with ⟨task, htask, rfl⟩
      exact ⟨slot + 1, fun choice _ => h.isSome_stepDesk hdesk htask choice⟩
  · -- No job is left, so the driver has put off nothing and waits for nothing.
    rcases h.driver with ⟨pile, batch, hthread, hbatch, hisBatch⟩
    have hpile := List.mem_of_getElem? hthread
    cases pile with
    | nil => cases hbatch
    | cons top rest =>
        have halone : rest = [] := by
          refine List.eq_nil_iff_forall_not_mem.mpr fun lower hlower => ?_
          rcases List.rel_of_pairwise_cons (h.piles _ hpile) hlower with ⟨cell, hown, -⟩
          exact hnew ⟨cell, hcell hpile List.mem_cons_self hown⟩
        subst halone
        obtain rfl := List.mem_singleton.mp hbatch
        refine ⟨0, fun choice hchoice => isSome_step hthread ?_⟩
        refine h.isSome_advance hsound (List.mem_flatten_of_mem hpile hbatch)
          (fun cell _ hthis => hnew ⟨cell, hthis⟩) ?_ hchoice
        rintro results rfl
        rw [results?_eq_some_iff.mpr hthread] at hopen
        cases hopen

end

/-! ## Waiting -/

/-- Whether a thread is at the results of jobs, of which that with a given cell is the next. -/
def Awaits (shop : Workshop α) (thread cell : Nat) : Prop :=
  ∃ client out results rest,
    shop.threads[thread]? = some (.fanning client ⟨[], cell :: out, results⟩ :: rest)

/-- Whether a thread has a job in hand, or has it on its desk. -/
def HasJob (shop : Workshop α) (thread cell : Nat) : Prop :=
  (∃ frames, shop.threads[thread]? = some frames ∧
    ∃ frame ∈ frames, frame.piece.cell? = some cell) ∨
  ∃ slot desk task, thread = slot + 1 ∧ shop.floor.pool.workers[slot]? = some desk ∧
    task ∈ desk.queue ∧ task.cell = cell

/-- Whether a thread waits for a job that another one has. -/
def WaitsFor (shop : Workshop α) (thread other : Nat) : Prop :=
  ∃ cell, shop.Awaits thread cell ∧ shop.HasJob other cell

/-- A thread waits for one job at a time. -/
theorem Awaits.unique {shop : Workshop α} {thread cell other : Nat}
    (h : shop.Awaits thread cell) (hother : shop.Awaits thread other) : cell = other := by
  rcases h with ⟨client, out, results, rest, hthread⟩
  rcases hother with ⟨client', out', results', rest', hthread'⟩
  rw [hthread] at hthread'
  simp only [Option.some.injEq, List.cons.injEq, Frame.fanning.injEq, Fan.mk.injEq] at hthread'
  exact hthread'.1.2.2.1.1

section

variable {base : Nat} {goal : List (Option α)} {expected : List α} {shop : Workshop α}

/-- A thread that waits and has a job waits for a newer one. -/
theorem Orderly.lt_of_awaits (h : shop.Orderly size)
    (hsound : Sound base goal expected shop.floor.books shop.pieces) {thread cell newer : Nat}
    (hjob : shop.HasJob thread cell) (hawaits : shop.Awaits thread newer) : cell < newer := by
  rcases hawaits with ⟨client, out, results, rest, hthread⟩
  have hpile := List.mem_of_getElem? hthread
  rcases hjob with
    ⟨frames, hframes, frame, hframe, hcell⟩ | ⟨slot, desk, task, rfl, hdesk, htask, -⟩
  · rw [hthread] at hframes
    obtain rfl := Option.some.inj hframes
    have hkeeps := hsound.keeps (.fan client ⟨[], newer :: out, results⟩)
      (Multiset.mem_add.mpr (.inl (Multiset.mem_coe.mpr
        (List.mem_map_of_mem (List.mem_flatten_of_mem hpile List.mem_cons_self)))))
    rcases List.mem_cons.mp hframe with rfl | hrest
    · exact hkeeps.lt_of_mem_out hcell List.mem_cons_self
    · rcases List.rel_of_pairwise_cons (h.piles _ hpile) hrest with ⟨top, htop, holder⟩
      exact (holder cell hcell).trans (hkeeps.lt_of_mem_out htop List.mem_cons_self)
  · -- A worker with a job on its desk is at nothing.
    rcases h.desk_of_queue hdesk htask with ⟨-, hidle⟩
    rw [h.idle slot desk hdesk hidle] at hthread
    cases hthread

/-- Threads do not wait for each other in a circle. -/
theorem Orderly.acyclic (h : shop.Orderly size)
    (hsound : Sound base goal expected shop.floor.books shop.pieces) (thread : Nat) :
    ¬Relation.TransGen shop.WaitsFor thread thread := by
  have hlt : ∀ {first last cell newer : Nat}, Relation.TransGen shop.WaitsFor first last →
      shop.Awaits first cell → shop.Awaits last newer → cell < newer := by
    intro first last cell newer hpath hcell
    induction hpath generalizing newer with
    | single hwaits =>
        rcases hwaits with ⟨other, hother, hjob⟩
        rw [hcell.unique hother]
        exact h.lt_of_awaits hsound hjob
    | tail hpath hwaits ih =>
        rcases hwaits with ⟨other, hother, hjob⟩
        exact fun hnewer => (ih hother).trans (h.lt_of_awaits hsound hjob hnewer)
  intro hcycle
  rcases Relation.TransGen.head'_iff.mp hcycle with ⟨next, ⟨cell, hawaits, -⟩, -⟩
  exact Nat.lt_irrefl cell (hlt hcycle hawaits hawaits)

end

end Workshop

/-! ## Batches -/

/-- A pool of `size` workers before a batch: its workers have just begun, or the batch before is
answered, and there was room for the fragments of its documents. -/
inductive Pool.Reached (size : Nat) : Pool (List (Desk Product)) → Prop
  | begun : Reached size (.start (List.replicate size .idle))
  | answered {pool : Pool (List (Desk Product))} (hpool : Reached size pool) {index : Index}
      {settings : Settings} {queries : List Query}
      (hfits : ∀ query ∈ queries, query.fits settings = true) {moves : List Move}
      {shop : Workshop Product}
      (hrun : (Batch.opened index settings queries pool).run moves = some shop)
      {results : List (Option Product)} (hresults : shop.results? = some results) :
      Reached size shop.floor.pool

/-- What holds of a workshop with `size` workers in which a batch is answered. -/
structure Workshop.Live (size : Nat) (shop : Workshop α) : Prop where
  /-- Every worker has a desk and a thread, and there is the thread of the driver. -/
  workers : shop.floor.pool.workers.length = size ∧ shop.threads.length = size + 1
  /-- A slot is claimed just if there is a job that is to be posted to its worker, waits for it,
  or was taken by it without the slot being freed since, and there is one such job. -/
  load : ∀ slot desk, shop.floor.pool.workers[slot]? = some desk →
    desk.claimed.toNat = shop.threads.flatten.countP (Frame.isPosting slot) +
      desk.queue.length + desk.engaged.toNat
  /-- A worker that has taken no job does nothing. -/
  idle : ∀ slot desk, shop.floor.pool.workers[slot]? = some desk → desk.engaged = false →
    shop.threads[slot + 1]? = some []
  /-- A job that is posted to a worker finds nothing on its desk. -/
  room : ∀ task slot, .posting task slot ∈ shop.threads.flatten →
    ∃ desk, shop.floor.pool.workers[slot]? = some desk ∧ desk.serving = true ∧
      desk.queue = [] ∧ desk.engaged = false
  /-- Threads do not wait for each other in a circle. -/
  acyclic : ∀ thread, ¬Relation.TransGen shop.WaitsFor thread thread
  /-- Until the batch is answered some thread can go on, whichever slot it claims. -/
  progress : shop.results? = none →
    ∃ thread, ∀ choice, shop.CanClaim choice → (shop.step ⟨thread, choice⟩).isSome = true
  /-- When it is answered, no job is left. -/
  done : ∀ results, shop.results? = some results →
    (∀ content ∈ shop.floor.cells.cells, content = .used) ∧
      (∀ frames ∈ shop.threads.tail, frames = []) ∧ shop.floor.pool.AtRest

namespace Batch

/-- Whatever steps were taken, a workshop in which a batch is answered is in order. -/
theorem orderly_of_run {index : Index} {settings : Settings} {queries : List Query}
    (hfits : ∀ query ∈ queries, query.fits settings = true)
    {pool : Pool (List (Desk Product))} (hpool : pool.Tidy) {moves : List Move}
    {shop : Workshop Product}
    (hrun : (opened index settings queries pool).run moves = some shop) :
    shop.Orderly pool.workers.length := by
  have hnone : (opened index settings queries pool).run [] =
      some (opened index settings queries pool) := rfl
  rcases sound_of_run hfits hpool.atRest hnone with ⟨expected, hsound⟩
  exact (Workshop.orderly_opened _ hpool).run hsound hrun

/-- Before every batch the workers have nothing to do. -/
theorem tidy_of_reached {pool : Pool (List (Desk Product))} (hpool : Pool.Reached size pool) :
    pool.Tidy ∧ pool.workers.length = size := by
  induction hpool with
  | begun =>
      refine ⟨fun desk hdesk => ?_, List.length_replicate⟩
      rw [List.eq_of_mem_replicate hdesk]
      exact ⟨rfl, rfl, rfl⟩
  | answered hpool hfits hrun hresults ih =>
      rcases ih with ⟨htidy, hsize⟩
      have horderly := orderly_of_run hfits htidy hrun
      rcases sound_of_run hfits htidy.atRest hrun with ⟨expected, hsound⟩
      exact ⟨horderly.tidy hsound hresults, horderly.workers.1.trans hsize⟩

/-- Whatever steps the threads take while a batch is answered, whatever batches were answered
before, if there is room for the fragments of the documents, so that no job aborts its thread:
every worker has one job at most, and none if its slot is free, a job that is posted to
a worker finds an empty desk, threads do not wait for each other in a circle, and some thread
can go on until no job is left. -/
theorem live_of_run {pool : Pool (List (Desk Product))} (hpool : Pool.Reached size pool)
    {index : Index} {settings : Settings} {queries : List Query}
    (hfits : ∀ query ∈ queries, query.fits settings = true) {moves : List Move}
    {shop : Workshop Product}
    (hrun : (opened index settings queries pool).run moves = some shop) : shop.Live size := by
  rcases tidy_of_reached hpool with ⟨htidy, rfl⟩
  have horderly := orderly_of_run hfits htidy hrun
  rcases sound_of_run hfits htidy.atRest hrun with ⟨expected, hsound⟩
  constructor
  · exact horderly.workers
  · exact fun slot desk hdesk => (horderly.desks slot desk hdesk).load
  · exact horderly.idle
  · intro task slot hposting
    rcases horderly.desk_of_posting hposting with ⟨desk, hdesk, hserving, -, hqueue, hfree⟩
    exact ⟨desk, hdesk, hserving, hqueue, hfree⟩
  · exact horderly.acyclic hsound
  · exact horderly.exists_step hsound
  · intro results hresults
    rcases Workshop.done_of_results? hsound hresults with ⟨-, -, -, hcells, hthreads, hdesks⟩
    exact ⟨hcells, hthreads, hdesks⟩

/-- The only worker of a pool answers one of two queries and is about to hand out its fragments,
while the driver has answered the other one and waits for it.  The worker can go on. -/
theorem live_of_run_one_worker :
    let text := Text.ofString
    let on : Nat → Move := fun thread => ⟨thread, none⟩
    let moves := [on 0, ⟨0, some 0⟩, on 0, on 1, on 0, on 1] ++ List.replicate 13 (on 0)
    let queries : List Query := [⟨text "b a b", 1⟩, ⟨text "a b a", 2⟩]
    (∀ query ∈ queries, query.fits ⟨1, 2, 2, 1⟩ = true) ∧ ∃ shop : Workshop Product,
      (opened .empty ⟨1, 2, 2, 1⟩ queries (.start [.idle])).run moves = some shop ∧
      shop.Live 1 ∧ shop.results? = none ∧ shop.floor.pool.workers.map Desk.claimed = [true] ∧
      shop.step (on 0) = none ∧ (shop.step (on 1)).isSome = true := by
  intro text on moves queries
  have hfits : ∀ query ∈ queries, query.fits ⟨1, 2, 2, 1⟩ = true :=
    fun query _ => Query.fits_of_hasRoom (by decide) query
  have hvalues : ((opened .empty ⟨1, 2, 2, 1⟩ queries (.start [.idle])).run moves).map
      (fun shop =>
        (shop.results?.isNone, shop.floor.pool.workers.map Desk.claimed,
          (shop.step (on 0)).isNone, (shop.step (on 1)).isSome)) =
      some (true, [true], true, true) := by
    decide +kernel
  rcases Option.map_eq_some_iff.mp hvalues with ⟨shop, hrun, hshop⟩
  simp only [Prod.mk.injEq, Option.isNone_iff_eq_none] at hshop
  rcases hshop with ⟨hresults, hclaimed, hdriver, hworker⟩
  exact ⟨hfits, shop, hrun, live_of_run .begun hfits hrun, hresults, hclaimed, hdriver, hworker⟩

end Batch

end PhraseLedger
