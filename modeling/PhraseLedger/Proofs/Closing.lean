import PhraseLedger.Proofs.Handover

/-!
# Closing a pool loses only late jobs

While a pool is used and closed, by any number of callers and in any order of steps, every job
that is offered is accepted or handed back.  A job that is accepted was sent to one worker, and
unless it was sent after that worker was told to stop, the worker takes it before it goes.  So a
result is lost only if its job is discarded by the caller that got it back, is dropped by a
thread that a job aborts, or is late.

Main definitions:

- Definition {lit}`House.Steps`: what can happen around a pool.
- Definition {lit}`House.Orderly`, {lit}`House.Balanced`, {lit}`House.Excused`,
  {lit}`House.IsSettled`: the invariants of a pool that is used and closed.
- Definition {lit}`House.Accounted`: what holds of the jobs that are handed over.

Main results:

- Theorem {lit}`House.accounted_of_run`: whatever happens, jobs are accounted for.
- Theorem {lit}`House.job_lost_behind_stop`: a job can be accepted and run by nobody.
-/

namespace PhraseLedger

variable {α : Type}

namespace House

/-- What can happen around a pool. -/
inductive Steps (house : House α) : House α → Prop
  /-- A thread goes on with what it has in hand, or a caller makes a job. -/
  | move {index : Nat} {strand next : Strand α} {hall : Hall α}
      (hstrand : house.strands[index]? = some strand)
      (hbusy : strand = .idle → house.hall.posts.length ≤ index)
      (hmoves : strand.Moves house.hall next hall) :
      Steps house (house.setStrand index next hall)
  /-- A thread is aborted. -/
  | unwind {index : Nat} {task : Task α} {pending : List (Pending α)}
      (hstrand : house.strands[index]? = some ⟨some (.running task), pending⟩) :
      Steps house (house.unwind index ⟨some (.running task), pending⟩)
  /-- A worker with nothing in hand takes a step. -/
  | turn {slot : Nat} {post next : Post α} {strand : Strand α} {dropped : List Nat}
      (hidle : house.strands[slot]? = some .idle) (hpost : house.hall.posts[slot]? = some post)
      (hturns : post.Turns strand next dropped) :
      Steps house
        (house.setStrand slot strand ((house.hall.setPost slot next).dropSenders dropped))
  /-- A worker is told to stop. -/
  | tell {slot : Nat} {post : Post α} (hpost : house.hall.posts[slot]? = some post)
      (htold : post.told = false) :
      Steps house { house with hall := house.hall.setPost slot post.tell }
  /-- The pool is closed. -/
  | close (hover : ∀ post ∈ house.hall.posts, post.isOver = true) : Steps house house.close

/-- A worker that is found to be told next was not told before. -/
theorem told_of_findIdx? {posts : List (Post α)} {slot : Nat} {post : Post α}
    (hfind : posts.findIdx? (!·.told) = some slot) (hpost : posts[slot]? = some post) :
    post.told = false := by
  rcases List.findIdx?_eq_some_iff_getElem.mp hfind with ⟨hbound, htold, -⟩
  rw [List.getElem?_eq_getElem hbound, Option.some.injEq] at hpost
  rw [← hpost]
  exact Bool.not_eq_true' _ ▸ htold

/-- What happens is what can happen. -/
theorem steps_of_step {house after : House α} {act : Act α} (hstep : house.step act = some after) :
    house.Steps after := by
  cases act with
  | bring index handover plan =>
      rw [step] at hstep
      split at hstep
      · cases hstep
      · rename_i hindex
        split at hstep
        · rename_i hstrand
          obtain rfl := Option.some.inj hstep
          exact .move hstrand (fun _ => Nat.not_lt.mp hindex)
            (Strand.moves_of_make house.hall handover plan [] [])
        · cases hstep
  | again index handover =>
      rw [step] at hstep
      split at hstep
      · rename_i task pending hstrand
        obtain rfl := Option.some.inj hstep
        exact .move hstrand nofun (Strand.moves_of_again house.hall handover task pending)
      · cases hstep
  | discard index =>
      rw [step] at hstep
      split at hstep
      · rename_i task pending hstrand
        obtain rfl := Option.some.inj hstep
        exact .move hstrand nofun (.discard task pending)
      · cases hstep
  | go index choice =>
      rw [step] at hstep
      split at hstep
      · cases hstep
      · rename_i hstrand
        rw [House.turn] at hstep
        split at hstep
        · cases hstep
        · rename_i post hpost
          rcases Option.map_eq_some_iff.mp hstep with ⟨⟨strand, next, dropped⟩, hturn, rfl⟩
          exact .turn hstrand hpost (Post.turns_of_turn hturn)
      · rename_i waiting rest hstrand
        rcases Option.map_eq_some_iff.mp hstep with ⟨⟨duty, kept, hall⟩, hadvance, rfl⟩
        exact .move hstrand nofun (Strand.moves_of_advance_pending hadvance rest)
      · rename_i cell pending hstrand
        obtain rfl := Option.some.inj hstep
        exact .unwind hstrand
      · rename_i duty pending hother hstrand
        rcases Option.map_eq_some_iff.mp hstep with ⟨⟨next, started, hall⟩, hadvance, rfl⟩
        exact .move hstrand nofun (Strand.moves_of_advance hadvance pending)
  | tell =>
      rw [step] at hstep
      split at hstep
      · cases hstep
      · rename_i slot hfind
        split at hstep
        · cases hstep
        · rename_i post hpost
          split at hstep
          · obtain rfl := Option.some.inj hstep
            exact .tell hpost (told_of_findIdx? hfind hpost)
          · cases hstep
  | conclude =>
      rw [step] at hstep
      split at hstep
      · rename_i hall
        obtain rfl := Option.some.inj hstep
        refine .close fun post hpost => ?_
        rw [Bool.and_eq_true] at hall
        exact (Bool.and_eq_true_iff.mp (List.all_eq_true.mp hall.2 post hpost)).2
      · cases hstep

@[simp] theorem hall_setStrand (house : House α) (index : Nat) (strand : Strand α)
    (hall : Hall α) : (house.setStrand index strand hall).hall = hall := rfl

/-- How often there is an entry, with one thread replaced. -/
theorem exists_count_each {house : House α} {index : Nat} {strand : Strand α}
    (hstrand : house.strands[index]? = some strand) (of : Duty α → List Nat) (entry : Nat) :
    ∃ others, (house.each of).count entry = (strand.each of).count entry + others ∧
      ∀ next hall, ((house.setStrand index next hall).each of).count entry =
        (next.each of).count entry + others := by
  rcases exists_count_flatMap_set hstrand (Strand.each of) entry with ⟨others, hsame, hset⟩
  exact ⟨others, hsame, fun next _ => hset next⟩

/-! ## Workers in order -/

/-- What holds of the threads and workers of a pool of a given size. -/
structure Orderly (size : Nat) (house : House α) : Prop where
  /-- There is a thread for every worker. -/
  workers : house.hall.posts.length = size ∧ size ≤ house.strands.length
  posts : ∀ slot (post : Post α), house.hall.posts[slot]? = some post →
    post.Orderly ((house.each Duty.slots).count slot)
  /-- The thread of a worker has something to do only if the worker has taken a job. -/
  busy : ∀ (slot : Nat) (post : Post α) (strand : Strand α), house.hall.posts[slot]? = some post →
    house.strands[slot]? = some strand → strand ≠ .idle →
      post.engaged = true ∧ post.stance = .serving

/-- The workers as far as the order of their inboxes goes. -/
theorem Orderly.inOrder {size : Nat} {house : House α} (h : house.Orderly size) :
    ∀ post ∈ house.hall.posts, post.InOrder := by
  intro post hpost
  rcases List.mem_iff_getElem?.mp hpost with ⟨slot, hslot⟩
  exact (h.posts slot post hslot).inOrder

/-- A pool begins in order. -/
theorem orderly_opened (size callers : Nat) : (opened size callers : House α).Orderly size := by
  have hidle : ∀ {strand : Strand α}, strand ∈ (opened size callers : House α).strands →
      strand = .idle := fun hstrand => List.eq_of_mem_replicate hstrand
  constructor
  · exact ⟨List.length_replicate, by simp [opened]⟩
  · intro slot post hpost
    have hnone : (opened size callers : House α).each Duty.slots = [] := by
      refine List.flatMap_eq_nil_iff.mpr fun strand hstrand => ?_
      rw [hidle hstrand]
      rfl
    rw [hnone, List.eq_of_mem_replicate (List.mem_of_getElem? hpost)]
    exact Post.orderly_idle
  · intro slot post strand hpost hstrand hbusy
    exact absurd (hidle (List.mem_of_getElem? hstrand)) hbusy

variable {size : Nat} {house after : House α}

/-- The workers stay in order if a thread that changes leaves them so. -/
theorem Orderly.replace {index : Nat} {strand next : Strand α} {hall : Hall α}
    (h : house.Orderly size) (hstrand : house.strands[index]? = some strand)
    (hlength : hall.posts.length = house.hall.posts.length)
    (hposts : ∀ others : Nat → Nat,
      (∀ slot (post : Post α), house.hall.posts[slot]? = some post →
        post.Orderly ((strand.each Duty.slots).count slot + others slot)) →
      ∀ slot (post : Post α), hall.posts[slot]? = some post →
        post.Orderly ((next.each Duty.slots).count slot + others slot))
    (hother : ∀ slot (post : Post α), hall.posts[slot]? = some post → slot ≠ index →
      ∃ before, house.hall.posts[slot]? = some before ∧ post.standing = before.standing)
    (hbusy : ∀ post : Post α, hall.posts[index]? = some post → next ≠ .idle →
      post.engaged = true ∧ post.stance = .serving) :
    (house.setStrand index next hall).Orderly size := by
  constructor
  · exact ⟨hlength.trans h.workers.1, h.workers.2.trans List.length_set.ge⟩
  · choose others hsame hset using fun slot => exists_count_each hstrand Duty.slots slot
    intro slot post hpost
    rw [hset]
    refine hposts others (fun slot post hpost => ?_) slot post hpost
    rw [← hsame]
    exact h.posts slot post hpost
  · intro slot post other hpost hthis hne
    by_cases hslot : slot = index
    · subst hslot
      have hnext : (house.strands.set slot next)[slot]? = some next :=
        List.getElem?_set_self (List.getElem?_eq_some_iff.mp hstrand).1
      obtain rfl := Option.some.inj (hthis.symm.trans hnext)
      exact hbusy post hpost hne
    · rcases hother slot post hpost hslot with ⟨before, hbefore, hstanding⟩
      have hold : house.strands[slot]? = some other :=
        (List.getElem?_set_ne (Ne.symm hslot)).symm.trans hthis
      rcases h.busy slot before other hbefore hold hne with ⟨hengaged, hserving⟩
      simp only [Post.standing, Prod.mk.injEq] at hstanding
      exact ⟨hstanding.2.1.trans hengaged, hstanding.1.trans hserving⟩

/-- What a thread does leaves the workers in order. -/
theorem Orderly.move {index : Nat} {strand next : Strand α} {hall : Hall α}
    (h : house.Orderly size) (hstrand : house.strands[index]? = some strand)
    (hbusy : strand = .idle → house.hall.posts.length ≤ index)
    (hmoves : strand.Moves house.hall next hall) :
    (house.setStrand index next hall).Orderly size := by
  have hstanding := hmoves.standing
  have hbefore : ∀ (slot : Nat) (post : Post α), hall.posts[slot]? = some post →
      ∃ before : Post α, house.hall.posts[slot]? = some before ∧
        post.standing = before.standing := by
    intro slot post hpost
    have hslot := congrArg (·[slot]?) hstanding
    simp only [List.getElem?_map, hpost, Option.map_some] at hslot
    rcases Option.map_eq_some_iff.mp hslot.symm with ⟨before, hbefore, hsame⟩
    exact ⟨before, hbefore, hsame.symm⟩
  refine h.replace hstrand ?_ hmoves.posts (fun slot post hpost _ => hbefore slot post hpost) ?_
  · simpa using congrArg List.length hstanding
  · intro post hpost hnext
    rcases hbefore index post hpost with ⟨before, hpost, hsame⟩
    have hold : strand ≠ .idle := fun hidle => Nat.not_lt.mpr (hbusy hidle)
      (List.getElem?_eq_some_iff.mp hpost).1
    rcases h.busy index before strand hpost hstrand hold with ⟨hengaged, hserving⟩
    simp only [Post.standing, Prod.mk.injEq] at hsame
    exact ⟨hsame.2.1.trans hengaged, hsame.1.trans hserving⟩

/-- A thread that is aborted leaves the workers in order. -/
theorem Orderly.unwind {index : Nat} {task : Task α} {pending : List (Pending α)}
    (h : house.Orderly size)
    (hstrand : house.strands[index]? = some ⟨some (.running task), pending⟩) :
    (house.unwind index ⟨some (.running task), pending⟩).Orderly size := by
  have hmodify : ∀ {slot : Nat} {post : Post α},
      (house.hall.posts.modify index (Post.quit .lost))[slot]? = some post →
      ∃ before, house.hall.posts[slot]? = some before ∧
        post = if index = slot then before.quit .lost else before := by
    intro slot post hpost
    rw [List.getElem?_modify] at hpost
    rcases Option.map_eq_some_iff.mp hpost with ⟨before, hbefore, hsame⟩
    exact ⟨before, hbefore, hsame.symm⟩
  refine h.replace hstrand (List.length_modify _ _ _) (fun others hposts slot post hpost => ?_)
    (fun slot post hpost hne => ?_) fun post hpost hne => absurd rfl hne
  · rcases hmodify hpost with ⟨before, hbefore, rfl⟩
    split
    · rename_i hsame
      subst hsame
      rcases h.busy index before _ hbefore hstrand nofun with ⟨hengaged, hserving⟩
      exact ((hposts index before hbefore).abort hengaged hserving).1
    · exact hposts slot before hbefore
  · rcases hmodify hpost with ⟨before, hbefore, rfl⟩
    exact ⟨before, hbefore, by rw [if_neg (Ne.symm hne)]⟩

/-- A worker that takes a step leaves the workers in order. -/
theorem Orderly.turn {slot : Nat} {post next : Post α} {strand : Strand α} {dropped : List Nat}
    (h : house.Orderly size) (hidle : house.strands[slot]? = some .idle)
    (hpost : house.hall.posts[slot]? = some post) (hturns : post.Turns strand next dropped) :
    (house.setStrand slot strand ((house.hall.setPost slot next).dropSenders dropped)).Orderly
      size := by
  have hslots : strand.each Duty.slots = [] := by
    rcases hturns.busy with rfl | ⟨-, -, task, rfl⟩ <;> rfl
  refine h.replace hidle List.length_set (fun others hposts => ?_) ?_ ?_
  · rw [hslots]
    exact forall_getElem?_set (fun other post hother _ => hposts other post hother)
      (hturns.orderly (hposts slot post hpost))
  · exact forall_getElem?_set (fun other post hother _ _ => ⟨post, hother, rfl⟩)
      (fun hne => absurd rfl hne)
  · intro other hother hne
    have hsame : (house.hall.posts.set slot next)[slot]? = some next :=
      List.getElem?_set_self (List.getElem?_eq_some_iff.mp hpost).1
    obtain rfl := Option.some.inj (hsame.symm.trans hother)
    rcases hturns.busy with hnone | ⟨hengaged, hserving, -⟩
    · exact absurd hnone hne
    · exact ⟨hengaged, hserving⟩

/-- A worker that is told to stop leaves the workers in order. -/
theorem Orderly.tell {slot : Nat} {post : Post α} (h : house.Orderly size)
    (hpost : house.hall.posts[slot]? = some post) (htold : post.told = false) :
    ({ house with hall := house.hall.setPost slot post.tell } : House α).Orderly size := by
  constructor
  · exact ⟨List.length_set.trans h.workers.1, h.workers.2⟩
  · exact forall_getElem?_set (fun other post hother _ => h.posts other post hother)
      ((h.posts slot post hpost).tell htold)
  · have hbusy : ∀ (other : Nat) (worker : Post α),
        (house.hall.posts.set slot post.tell)[other]? = some worker →
        ∀ strand, house.strands[other]? = some strand → strand ≠ .idle →
          worker.engaged = true ∧ worker.stance = .serving :=
      forall_getElem?_set
        (fun other worker hother _ strand => h.busy other worker strand hother)
        fun strand => h.busy slot post strand hpost
    exact fun other worker strand hother => hbusy other worker hother strand

/-- What can happen leaves the workers in order. -/
theorem Orderly.steps (h : house.Orderly size) (hsteps : house.Steps after) :
    after.Orderly size := by
  cases hsteps with
  | move hstrand hbusy hmoves => exact h.move hstrand hbusy hmoves
  | unwind hstrand => exact h.unwind hstrand
  | turn hidle hpost hturns => exact h.turn hidle hpost hturns
  | tell hpost htold => exact h.tell hpost htold
  | close hover => exact ⟨h.workers, h.posts, h.busy⟩

/-! ## Jobs in balance -/

/-- Where the jobs are that were offered. -/
structure Balanced (house : House α) : Prop where
  /-- Every job that is offered is accepted or handed back, or the call is not over. -/
  calls : ∀ cell, house.hall.register.calls.count cell =
    house.hall.register.accepted.count cell + house.hall.register.returned.count cell +
      (house.each Duty.called).count cell
  /-- Every job that was sent to a worker is accepted, or about to be. -/
  sent : ∀ cell, house.hall.register.accepted.count cell + (house.each Duty.counted).count cell =
    house.hall.placed.count cell
  /-- A job is sent or discarded once at most, and one that can still be sent was not. -/
  fresh : ∀ cell, house.hall.spent.count cell + (house.each Duty.unsent).count cell ≤ 1 ∧
    (house.hall.nextCell ≤ cell →
      house.hall.spent.count cell + (house.each Duty.unsent).count cell = 0)
  dispatched : house.hall.dispatched = house.hall.register.accepted.length

theorem balanced_opened (size callers : Nat) : (opened size callers : House α).Balanced := by
  have hnone : ∀ of : Duty α → List Nat, (opened size callers : House α).each of = [] := by
    intro of
    refine List.flatMap_eq_nil_iff.mpr fun strand hstrand => ?_
    rw [List.eq_of_mem_replicate hstrand]
    rfl
  have hplaced : (opened size callers : House α).hall.placed = [] := by
    refine List.flatMap_eq_nil_iff.mpr fun post hpost => ?_
    rw [List.eq_of_mem_replicate hpost]
    rfl
  refine ⟨fun cell => ?_, fun cell => ?_, fun cell => ?_, rfl⟩
  · rw [hnone]
    rfl
  · rw [hnone, hplaced]
    rfl
  · rw [hnone, Hall.spent, hplaced]
    exact ⟨Nat.zero_le 1, fun _ => rfl⟩

/-- Threads that have the same in hand and workers that have the same jobs keep the balance. -/
theorem Balanced.congr (h : house.Balanced)
    (heach : ∀ (of : Duty α → List Nat) cell,
      of = Duty.called ∨ of = Duty.counted ∨ of = Duty.unsent →
      (after.each of).count cell = (house.each of).count cell)
    (hplaced : ∀ cell, after.hall.placed.count cell = house.hall.placed.count cell)
    (hlength : after.hall.nextCell = house.hall.nextCell)
    (hcalls : after.hall.register.calls = house.hall.register.calls)
    (haccepted : after.hall.register.accepted = house.hall.register.accepted)
    (hreturned : after.hall.register.returned = house.hall.register.returned)
    (hdiscarded : after.hall.register.discarded = house.hall.register.discarded)
    (hdispatched : after.hall.dispatched = house.hall.dispatched) : after.Balanced := by
  refine ⟨fun cell => ?_, fun cell => ?_, fun cell => ?_, ?_⟩
  · rw [hcalls, haccepted, hreturned, heach _ cell (.inl rfl)]
    exact h.calls cell
  · rw [haccepted, hplaced, heach _ cell (.inr (.inl rfl))]
    exact h.sent cell
  · rw [Hall.count_spent, hplaced, hdiscarded, ← Hall.count_spent, hlength,
      heach _ cell (.inr (.inr rfl))]
    exact h.fresh cell
  · rw [hdispatched, haccepted]
    exact h.dispatched

/-- What a thread does keeps the balance. -/
theorem Balanced.move {index : Nat} {strand next : Strand α} {hall : Hall α}
    (h : house.Balanced) (hin : ∀ post ∈ house.hall.posts, post.InOrder)
    (hstrand : house.strands[index]? = some strand)
    (hmoves : strand.Moves house.hall next hall) :
    (house.setStrand index next hall).Balanced := by
  refine ⟨fun cell => ?_, fun cell => ?_, ?_, ?_⟩
  · rcases exists_count_each hstrand Duty.called cell with ⟨others, hbefore, hafter⟩
    have hcalls := h.calls cell
    have hmove := hmoves.calls cell
    rw [hbefore] at hcalls
    rw [hafter, hall_setStrand]
    omega
  · rcases exists_count_each hstrand Duty.counted cell with ⟨others, hbefore, hafter⟩
    have hsent := h.sent cell
    have hmove := hmoves.sent hin cell
    rw [hbefore] at hsent
    rw [hafter, hall_setStrand]
    omega
  · choose others hbefore hafter using fun cell => exists_count_each hstrand Duty.unsent cell
    have hfresh := hmoves.fresh hin others fun cell => by
      rw [Nat.add_assoc, ← hbefore]
      exact h.fresh cell
    intro cell
    rw [hafter, hall_setStrand, ← Nat.add_assoc]
    exact hfresh cell
  · have hcounts := hmoves.counts.1
    have hdispatched := h.dispatched
    rw [hall_setStrand]
    omega

/-- What can happen keeps the balance. -/
theorem Balanced.steps (h : house.Balanced) (horderly : house.Orderly size)
    (hsteps : house.Steps after) : after.Balanced := by
  cases hsteps with
  | move hstrand hbusy hmoves => exact h.move horderly.inOrder hstrand hmoves
  | @unwind index task pending hstrand =>
      refine h.congr (fun of cell hof => ?_) (fun cell => ?_) ?_ rfl rfl rfl rfl rfl
      · rcases exists_count_each hstrand of cell with ⟨others, hbefore, hafter⟩
        rw [hbefore, unwind, hafter]
        rcases hof with rfl | rfl | rfl <;> rfl
      · cases hpost : house.hall.posts[index]? with
        | none =>
            have hsame : house.hall.posts.modify index (Post.quit .lost) = house.hall.posts :=
              List.modify_eq_self (List.getElem?_eq_none_iff.mp hpost)
            exact congrArg (fun posts => (posts.flatMap Post.placed).count cell) hsame
        | some post =>
            rcases horderly.busy index post _ hpost hstrand nofun with ⟨hengaged, hserving⟩
            have hplaced := ((horderly.posts index post hpost).abort hengaged hserving).2.1
            have hset := count_placed_set_of_perm hpost (List.Perm.of_eq hplaced) cell
            rwa [← modify_eq_set_of_getElem? hpost] at hset
      · exact (Hall.nextCell_dropReceivers _ _).trans (Hall.nextCell_dropSenders _ _)
  | @turn slot post next strand dropped hidle hpost hturns =>
      have hin := (horderly.posts slot post hpost).inOrder
      refine h.congr (fun of cell hof => ?_) (fun cell => ?_) ?_ rfl rfl rfl rfl rfl
      · rcases exists_count_each hidle of cell with ⟨others, hbefore, hafter⟩
        rw [hbefore, hafter]
        rcases hturns.busy with rfl | ⟨-, -, task, rfl⟩
        · rfl
        · rcases hof with rfl | rfl | rfl <;> rfl
      · exact count_placed_set_of_perm hpost (hturns.placed hin) cell
      · exact Hall.nextCell_dropSenders _ dropped
  | @tell slot post hpost htold =>
      have hin := (horderly.posts slot post hpost).inOrder
      exact h.congr (fun _ _ _ => rfl)
        (count_placed_set_of_perm hpost (List.Perm.of_eq (Post.placed_tell hin htold)))
        rfl rfl rfl rfl rfl rfl
  | close hover => exact ⟨h.calls, h.sent, h.fresh, h.dispatched⟩

/-! ## Results that are lost -/

/-- What excuses the loss of a result. -/
structure Excused (house : House α) : Prop where
  lost : ∀ cell, house.hall.cells.isLost cell = true → house.hall.IsExcused cell
  /-- Only jobs that were handed back are held. -/
  held : ∀ cell ∈ house.each Duty.held, cell ∈ house.hall.register.returned
  /-- Only jobs that were handed back are discarded. -/
  discarded : ∀ cell ∈ house.hall.register.discarded, cell ∈ house.hall.register.returned
  /-- A worker that is lost was aborted. -/
  unwound : ∀ post ∈ house.hall.posts, post.stance = .lost → house.hall.register.unwound ≠ []

theorem excused_opened (size callers : Nat) : (opened size callers : House α).Excused := by
  refine ⟨nofun, fun cell hcell => ?_, nofun, fun post hpost hlost => ?_⟩
  · rcases List.mem_flatMap.mp hcell with ⟨strand, hstrand, hthis⟩
    rw [List.eq_of_mem_replicate hstrand] at hthis
    cases hthis
  · rw [List.eq_of_mem_replicate hpost] at hlost
    cases hlost

/-- The entries for what the threads are at, with one thread replaced. -/
theorem mem_each_setStrand {of : Duty α → List Nat} {index : Nat} {next : Strand α} {hall : Hall α}
    {entry : Nat} (h : entry ∈ (house.setStrand index next hall).each of) :
    entry ∈ next.each of ∨ entry ∈ house.each of := by
  rcases List.mem_flatMap.mp h with ⟨strand, hstrand, hentry⟩
  rcases List.mem_or_eq_of_mem_set hstrand with hold | rfl
  · exact .inr (List.mem_flatMap.mpr ⟨strand, hold, hentry⟩)
  · exact .inl hentry

/-- What a thread does leaves every loss excused. -/
theorem Excused.move {index : Nat} {strand next : Strand α} {hall : Hall α} (h : house.Excused)
    (hstrand : house.strands[index]? = some strand)
    (hmoves : strand.Moves house.hall next hall) :
    (house.setStrand index next hall).Excused := by
  have hheld : ∀ cell ∈ strand.each Duty.held, cell ∈ house.hall.register.returned :=
    fun cell hcell => h.held cell
      (List.mem_flatMap.mpr ⟨strand, List.mem_of_getElem? hstrand, hcell⟩)
  rcases hmoves.held hheld h.discarded with ⟨hreturned, hnext, hdiscarded⟩
  refine ⟨fun cell hcell => ?_, fun cell hcell => ?_, hdiscarded, fun post hpost hlost => ?_⟩
  · rcases hmoves.lost hcell with hbefore | hdropped
    · exact hmoves.excused (h.lost cell hbefore)
    · exact .inl hdropped
  · rcases mem_each_setStrand hcell with hthis | hother
    · exact hnext cell hthis
    · exact hreturned cell (h.held cell hother)
  · have hstanding : post.standing ∈ house.hall.posts.map Post.standing :=
      hmoves.standing ▸ List.mem_map_of_mem hpost
    rcases List.mem_map.mp hstanding with ⟨before, hbefore, hsame⟩
    rw [hall_setStrand, hmoves.counts.2]
    exact h.unwound before hbefore ((congrArg Prod.fst hsame).trans hlost)

/-- The jobs that an aborted thread drops are excused. -/
theorem Excused.unwind {index : Nat} {task : Task α} {pending : List (Pending α)}
    (h : house.Excused) : (house.unwind index ⟨some (.running task), pending⟩).Excused := by
  refine ⟨fun cell hcell => ?_, fun cell hcell => ?_, h.discarded, fun _ _ _ => ?_⟩
  · rcases Bank.isLost_of_dropSenders (Bank.isLost_of_dropReceivers hcell) with
      hbefore | hdropped
    · exact (h.lost cell hbefore).imp_right
        (Or.imp (List.mem_append_left _) exists_late_modify)
    · exact .inr (.inl (List.mem_append_right _ hdropped))
  · rcases mem_each_setStrand hcell with hthis | hother
    · cases hthis
    · exact h.held cell hother
  · exact List.append_ne_nil_of_right_ne_nil _ (List.cons_ne_nil _ _)

/-- The jobs that a worker drops when it goes were late. -/
theorem Excused.turn {slot : Nat} {post next : Post α} {strand : Strand α} {dropped : List Nat}
    (h : house.Excused) (hin : post.InOrder) (hpost : house.hall.posts[slot]? = some post)
    (hturns : post.Turns strand next dropped) :
    (house.setStrand slot strand ((house.hall.setPost slot next).dropSenders dropped)).Excused := by
  rcases hturns.late_eq with ⟨hlate, hlost, -⟩
  have hkept : ∀ cell ∈ post.late, cell ∈ next.late := fun cell hcell => hlate.symm ▸ hcell
  refine ⟨fun cell hcell => ?_, fun cell hcell => ?_, h.discarded, fun other hother hgone => ?_⟩
  · rcases Bank.isLost_of_dropSenders hcell with hbefore | hdropped
    · exact (h.lost cell hbefore).imp_right (Or.imp_right (exists_late_set hpost hkept))
    · exact .inr (.inr (exists_late_set hpost hkept
        ⟨post, List.mem_of_getElem? hpost, hturns.mem_late hin cell hdropped⟩))
  · rcases mem_each_setStrand hcell with hthis | hother
    · rcases hturns.busy with rfl | ⟨-, -, task, rfl⟩ <;> cases hthis
    · exact h.held cell hother
  · rcases List.mem_or_eq_of_mem_set hother with hold | rfl
    · exact h.unwound other hold hgone
    · exact absurd hgone hlost

/-- Nothing is lost when a worker is told to stop. -/
theorem Excused.tell {slot : Nat} {post : Post α} (h : house.Excused)
    (hpost : house.hall.posts[slot]? = some post) :
    ({ house with hall := house.hall.setPost slot post.tell } : House α).Excused := by
  have hkept : ∀ cell ∈ post.late, cell ∈ post.tell.late := fun _ hcell => hcell
  refine ⟨fun cell hcell => ?_, h.held, h.discarded, fun other hother hgone => ?_⟩
  · exact (h.lost cell hcell).imp_right (Or.imp_right (exists_late_set hpost hkept))
  · rcases List.mem_or_eq_of_mem_set hother with hold | rfl
    · exact h.unwound other hold hgone
    · exact h.unwound post (List.mem_of_getElem? hpost) hgone

/-- What can happen leaves every loss excused. -/
theorem Excused.steps (h : house.Excused) (horderly : house.Orderly size)
    (hsteps : house.Steps after) : after.Excused := by
  cases hsteps with
  | move hstrand hbusy hmoves => exact h.move hstrand hmoves
  | unwind hstrand => exact h.unwind
  | turn hidle hpost hturns => exact h.turn (horderly.posts _ _ hpost).inOrder hpost hturns
  | tell hpost htold => exact h.tell hpost
  | close hover => exact ⟨h.lost, h.held, h.discarded, h.unwound⟩

/-! ## Closed pools -/

/-- Whether the pool is not closed, or no worker is left and the owner has their reports. -/
def IsSettled (house : House α) : Prop :=
  ∀ reports, house.closed = some reports →
    (∀ post ∈ house.hall.posts, post.isOver = true) ∧ reports = house.reports

/-- What the workers report is how far they are. -/
theorem reports_eq (house : House α) : house.reports =
    ((house.hall.posts.map Post.standing).zipIdx.filter (·.1.1 = .gone)).map
      fun entry => (entry.2, entry.1.2.2) := by
  rw [reports, List.zipIdx_map, List.filter_map, List.map_map]
  rfl

/-- Nothing changes how far the workers of a closed pool are. -/
theorem IsSettled.congr (h : house.IsSettled) (hclosed : after.closed = house.closed)
    (hstanding : (∀ post ∈ house.hall.posts, post.isOver = true) →
      after.hall.posts.map Post.standing = house.hall.posts.map Post.standing) :
    after.IsSettled := by
  intro reports hreports
  rcases h reports (hclosed ▸ hreports) with ⟨hover, rfl⟩
  refine ⟨fun post hpost => ?_, ?_⟩
  · have hthis : post.standing ∈ house.hall.posts.map Post.standing :=
      hstanding hover ▸ List.mem_map_of_mem hpost
    rcases List.mem_map.mp hthis with ⟨before, hbefore, hsame⟩
    have hstance : before.stance = post.stance := congrArg Prod.fst hsame
    have hbeforeOver := hover before hbefore
    rwa [Post.isOver, hstance] at hbeforeOver
  · rw [reports_eq, reports_eq, hstanding hover]

/-- What can happen leaves a pool settled. -/
theorem IsSettled.steps (h : house.IsSettled) (horderly : house.Orderly size)
    (hsteps : house.Steps after) : after.IsSettled := by
  cases hsteps with
  | move hstrand hbusy hmoves => exact h.congr rfl fun _ => hmoves.standing
  | @unwind index task pending hstrand =>
      refine h.congr rfl fun hover => ?_
      -- The thread of a worker that is gone has nothing to do.
      have hcaller : house.hall.posts[index]? = none := by
        refine Option.eq_none_iff_forall_ne_some.mpr fun post hpost => ?_
        rcases horderly.busy index post _ hpost hstrand nofun with ⟨-, hserving⟩
        have hthis := hover post (List.mem_of_getElem? hpost)
        rw [Post.isOver_iff, hserving] at hthis
        rcases hthis with hgone | hlost
        · cases hgone
        · cases hlost
      have hsame : house.hall.posts.modify index (Post.quit .lost) = house.hall.posts :=
        List.modify_eq_self (List.getElem?_eq_none_iff.mp hcaller)
      exact congrArg (List.map Post.standing) hsame
  | turn hidle hpost hturns =>
      refine h.congr rfl fun hover => ?_
      have hthis := hover _ (List.mem_of_getElem? hpost)
      rw [hturns.late_eq.2.2] at hthis
      cases hthis
  | tell hpost htold => exact h.congr rfl fun _ => map_set_of_eq hpost rfl
  | close hover =>
      intro reports hreports
      exact ⟨hover, (Option.some.inj hreports).symm⟩

/-- The jobs that the workers took. -/
def taken (house : House α) : List Nat :=
  house.hall.posts.flatMap Post.taken

/-- Workers that are gone took all jobs that were sent to them, but those that were late. -/
theorem placed_perm_of_isOver {posts : List (Post α)}
    (hover : ∀ post ∈ posts, post.isOver = true) :
    (posts.flatMap Post.placed).Perm (posts.flatMap Post.taken ++ posts.flatMap Post.late) := by
  have hplaced : ∀ post ∈ posts, post.placed = post.taken ++ post.late := by
    intro post hpost
    have hwaiting : post.waiting = [] := by
      rcases Post.isOver_iff.mp (hover post hpost) with hstance | hstance <;>
        rw [Post.waiting, hstance]
    rw [Post.placed, hwaiting, List.append_nil]
  rw [List.flatMap_congr hplaced]
  exact (List.flatMap_append_perm posts Post.taken Post.late).symm

/-- Workers of which none was aborted report how many jobs they took. -/
theorem sum_reports_of_gone (horderly : house.Orderly size)
    (hgone : ∀ post ∈ house.hall.posts, post.stance = .gone) :
    (house.reports.map Prod.snd).sum = house.taken.length := by
  have hall : house.hall.posts.zipIdx.filter (·.1.stance = .gone) = house.hall.posts.zipIdx := by
    refine List.filter_eq_self.mpr fun entry hentry => decide_eq_true ?_
    exact hgone entry.1 (List.fst_mem_of_mem_zipIdx hentry)
  have hcompleted : ∀ post ∈ house.hall.posts, post.completed = post.taken.length := by
    intro post hpost
    rcases List.mem_iff_getElem?.mp hpost with ⟨slot, hslot⟩
    exact (horderly.posts slot post hslot).completed_of_gone (hgone post hpost)
  calc (house.reports.map Prod.snd).sum
      = ((house.hall.posts.zipIdx.map Prod.fst).map Post.completed).sum := by
        rw [reports, hall, List.map_map, List.map_map]
        rfl
    _ = (house.hall.posts.map fun post => post.taken.length).sum := by
        rw [List.zipIdx_map_fst, List.map_congr_left hcompleted]
    _ = house.taken.length := List.length_flatMap.symm

/-- What holds of the jobs that are handed over while a pool is used and closed. -/
structure Accounted (house : House α) : Prop where
  /-- A job that is offered is accepted or handed back, or the call is not over. -/
  calls : house.hall.register.calls.Perm
    (house.hall.register.accepted ++ house.hall.register.returned ++ house.each Duty.called)
  /-- The jobs that are accepted, or about to be, are those that were sent to workers. -/
  sent : (house.hall.register.accepted ++ house.each Duty.counted).Perm house.hall.placed
  /-- A job is sent to one worker or discarded, or neither, and only once. -/
  once : house.hall.spent.Nodup
  /-- A worker completes every job that it takes, unless it is at the job or the job aborted
  it. -/
  run : ∀ post ∈ house.hall.posts, post.taken.length = post.completed + post.engaged.toNat
  /-- When the pool is closed, all workers are gone or were aborted, and every job that was
  accepted and was not late was taken, by one worker and once. -/
  closed : house.closed ≠ none →
    (∀ post ∈ house.hall.posts, post.stance = .gone ∨
      post.stance = .lost ∧ house.hall.register.unwound ≠ []) ∧
    ∀ cell ∈ house.hall.register.accepted, ¬house.hall.IsLate cell → house.taken.count cell = 1
  /-- When the pool is closed, no job was late and no call is under way, all the jobs that were
  dispatched were taken, and if no job was aborted, they are those that the workers report. -/
  dispatched : ∀ reports, house.closed = some reports → (∀ cell, ¬house.hall.IsLate cell) →
    house.each Duty.counted = [] →
      house.hall.dispatched = house.taken.length ∧
      (house.hall.register.unwound = [] → house.hall.dispatched = (reports.map Prod.snd).sum)
  /-- Only jobs that were handed back are discarded. -/
  discarded : ∀ cell ∈ house.hall.register.discarded, cell ∈ house.hall.register.returned
  /-- A receiver learns that no value can come only if the job was discarded, dropped by a thread
  that was aborted, or late. -/
  lost : ∀ cell, (house.hall.cells.perform (.receive cell)).1 = .received .closed →
    house.hall.IsExcused cell

/-- Whatever happens around a pool, jobs are accounted for. -/
theorem Orderly.accounted (horderly : house.Orderly size) (hbalanced : house.Balanced)
    (hexcused : house.Excused) (hsettled : house.IsSettled) : house.Accounted := by
  have hsent : (house.hall.register.accepted ++ house.each Duty.counted).Perm
      house.hall.placed := by
    refine List.perm_iff_count.mpr fun cell => ?_
    rw [List.count_append]
    exact hbalanced.sent cell
  have honce : house.hall.spent.Nodup :=
    List.nodup_iff_count_le_one.mpr fun cell => Nat.le_of_add_right_le (hbalanced.fresh cell).1
  have hplaced : house.closed ≠ none →
      house.hall.placed.Perm (house.taken ++ house.hall.posts.flatMap Post.late) := by
    intro hclosed
    rcases Option.ne_none_iff_exists'.mp hclosed with ⟨reports, hreports⟩
    exact placed_perm_of_isOver (hsettled reports hreports).1
  constructor
  · refine List.perm_iff_count.mpr fun cell => ?_
    rw [List.count_append, List.count_append]
    exact hbalanced.calls cell
  · exact hsent
  · exact honce
  · intro post hpost
    rcases List.mem_iff_getElem?.mp hpost with ⟨slot, hslot⟩
    exact (horderly.posts slot post hslot).done
  · intro hclosed
    rcases Option.ne_none_iff_exists'.mp hclosed with ⟨reports, hreports⟩
    refine ⟨fun post hpost => ?_, fun cell haccepted hlate => ?_⟩
    · rcases Post.isOver_iff.mp ((hsettled reports hreports).1 post hpost) with hgone | hlost
      · exact .inl hgone
      · exact .inr ⟨hlost, hexcused.unwound post hpost hlost⟩
    · have hcell : cell ∈ house.hall.placed :=
        hsent.mem_iff.mp (List.mem_append_left _ haccepted)
      have hcount : house.hall.placed.count cell = 1 :=
        List.count_eq_one_of_mem (List.nodup_append.mp honce).1 hcell
      have hother : (house.hall.posts.flatMap Post.late).count cell = 0 :=
        List.count_eq_zero.mpr fun hthis => hlate (List.mem_flatMap.mp hthis)
      rw [(hplaced hclosed).count_eq, List.count_append, hother] at hcount
      exact hcount
  · intro reports hreports hlate hcalls
    have hclosed : house.closed ≠ none := hreports ▸ Option.some_ne_none reports
    have hnone : house.hall.posts.flatMap Post.late = [] :=
      List.eq_nil_iff_forall_not_mem.mpr fun cell hcell => hlate cell (List.mem_flatMap.mp hcell)
    have htaken := (hsent.trans (hplaced hclosed)).length_eq
    rw [hcalls, hnone, List.append_nil, List.append_nil, ← hbalanced.dispatched] at htaken
    refine ⟨htaken, fun hunwound => ?_⟩
    rcases hsettled reports hreports with ⟨hover, rfl⟩
    rw [sum_reports_of_gone horderly fun post hpost => ?_, htaken]
    rcases Post.isOver_iff.mp (hover post hpost) with hgone | hlost
    · exact hgone
    · exact absurd hunwound (hexcused.unwound post hpost hlost)
  · exact hexcused.discarded
  · exact fun cell hclosed => hexcused.lost cell (Bank.perform_receive_eq_closed_iff.mp hclosed)

/-- However many workers and callers there are, whatever jobs they have, and whatever happens in
whatever order: jobs are accounted for. -/
theorem accounted_of_run {size callers : Nat} {acts : List (Act α)} {house : House α}
    (hrun : (opened size callers).run acts = some house) : house.Accounted := by
  have hkeeps : ∀ {before : House α}, before.Orderly size → before.Balanced → before.Excused →
      before.IsSettled → before.run acts = some house → house.Accounted := by
    clear hrun
    induction acts with
    | nil =>
        intro before horderly hbalanced hexcused hsettled hrun
        obtain rfl := Option.some.inj hrun
        exact horderly.accounted hbalanced hexcused hsettled
    | cons act acts ih =>
        intro before horderly hbalanced hexcused hsettled hrun
        rw [run, List.foldlM_cons] at hrun
        rcases Option.bind_eq_some_iff.mp hrun with ⟨next, hstep, hrest⟩
        have hsteps := steps_of_step hstep
        exact ih (horderly.steps hsteps) (hbalanced.steps horderly hsteps)
          (hexcused.steps horderly hsteps) (hsettled.steps horderly hsteps) hrest
  exact hkeeps (orderly_opened size callers) (balanced_opened size callers)
    (excused_opened size callers) nofun hrun

/-- A caller hands a job to the first of two workers, which hands a fragment to the second one and
runs the other one itself.  Then the pool is closed. -/
theorem accounted_of_run_two_workers :
    let plan := Batch.slicePlan .empty ⟨2, 2, 2, 1⟩ [⟨Text.ofString "b a b", 1⟩] []
    let on : Nat → Act Product := fun strand => .go strand none
    let acts := [.bring 2 .toWorker plan, .go 2 (some 0), on 2, on 2, on 0, on 0, on 0,
      .go 0 (some 1), on 0, on 0, .tell, .tell, on 1, on 1, on 0, on 0, on 1, on 0, on 0, on 1,
      on 0, on 0, on 1, on 0, on 0, on 0, .conclude]
    ∃ house, (opened 2 1).run acts = some house ∧ house.Accounted ∧
      house.closed = some [(0, 1), (1, 1)] ∧ house.hall.dispatched = 2 ∧ house.taken = [0, 1] := by
  intro plan on acts
  have hvalues : ((opened 2 1).run acts).map (fun house =>
      (house.closed, house.hall.dispatched, house.taken)) =
      some (some [(0, 1), (1, 1)], 2, [0, 1]) := by
    decide +kernel
  rcases Option.map_eq_some_iff.mp hvalues with ⟨house, hrun, hhouse⟩
  simp only [Prod.mk.injEq] at hhouse
  rcases hhouse with ⟨hclosed, hdispatched, htaken⟩
  exact ⟨house, hrun, accounted_of_run hrun, hclosed, hdispatched, htaken⟩

/-- Products can be told apart. -/
instance decidableEqProduct : DecidableEq Product
  | .found first, .found second => decidable_of_iff (first = second) (by simp)
  | .found _, .lines _ => isFalse (by simp)
  | .lines _, .found _ => isFalse (by simp)
  | .lines first, .lines second => decidable_of_iff (first = second) (by simp)

/-- A worker hands a fragment to another one that was told to stop.  The fragment is accepted, but
no worker runs it: two jobs were dispatched, of which the workers took one, and what was to answer
a batch finds that a worker was lost, although no job aborted its thread. -/
theorem job_lost_behind_stop :
    let plan := Batch.slicePlan .empty ⟨2, 2, 2, 1⟩ [⟨Text.ofString "b a b", 1⟩] []
    let on : Nat → Act Product := fun strand => .go strand none
    let acts := [.bring 2 .toWorker plan, .go 2 (some 0), on 2, on 2, on 0, on 0, .tell, .tell,
      on 0, .go 0 (some 1), on 0, on 0, on 1, on 1, on 0, on 0, on 0, on 0, on 0, on 0, on 0, on 0,
      on 0, .conclude]
    ∃ house, (opened 2 1).run acts = some house ∧ house.closed = some [(0, 1), (1, 0)] ∧
      house.hall.register.accepted = [0, 1] ∧ house.hall.register.unwound = [] ∧
      house.hall.dispatched = 2 ∧ house.taken = [0] ∧
      (house.hall.cells.perform (.receive 0)).1 =
        .received (.value (.lines (.error (.workerLost "scan of document fragment 0")))) := by
  intro plan on acts
  have hvalues : ((opened 2 1).run acts).map (fun house =>
      (house.closed, house.hall.register.accepted, house.hall.register.unwound,
        house.hall.dispatched, house.taken)) =
      some (some [(0, 1), (1, 0)], [0, 1], [], 2, [0]) := by
    decide +kernel
  have hreply : ((opened 2 1).run acts).map (fun house =>
      (house.hall.cells.perform (.receive 0)).1) =
      some (.received (.value (.lines (.error (.workerLost "scan of document fragment 0"))))) := by
    decide +kernel
  rcases Option.map_eq_some_iff.mp hvalues with ⟨house, hrun, hhouse⟩
  simp only [Prod.mk.injEq] at hhouse
  rcases hhouse with ⟨hclosed, haccepted, hunwound, hdispatched, htaken⟩
  rw [hrun] at hreply
  exact ⟨house, hrun, hclosed, haccepted, hunwound, hdispatched, htaken, Option.some.inj hreply⟩

/-- A job that is handed back belongs to its caller, and if the caller discards it, its value
cannot come any more. -/
example :
    let plan := Batch.slicePlan .empty ⟨1, 1, 1, 1⟩ [⟨Text.ofString "b", 1⟩] []
    ((opened 1 1).run [.tell, .go 0 none, .go 0 none, .conclude, .bring 1 .toWorker plan,
      .go 1 (some 0), .go 1 none, .discard 1]).map (fun house =>
        (house.hall.register.returned, house.hall.register.unwound,
          house.hall.cells.isLost 0)) = some ([0], [], true) := by
  decide +kernel

end House

end PhraseLedger
