import PhraseLedger.Proofs.Workshop

/-!
# The work that is left

Every job that is made in a workshop is counted once: with the worker on whose desk it is put, or
with the thread that runs it itself.  How many jobs are made is settled when the batch comes in.
For what is left to do of a job tells how many jobs it makes, and a step takes from what is left
as many jobs as it makes.

Main definitions:

- Definition {lit}`Piece.Leaves`: how many jobs are still to be made for a piece of work.
- Definition {lit}`Workshop.uncounted`: the jobs that were made and not counted yet.

Main results:

- Theorem {lit}`Workshop.jobs_of_run`: every job that was made is counted once.
- Theorem {lit}`Sound.leave`: a step makes as many jobs as it takes from those that are left.
-/

namespace PhraseLedger

variable {α : Type}

/-! ## What is still to be made -/

section

variable {goal : List (Option α)} {expected : List α}

/-- Whether `count` jobs are made when a client goes on with the results of its jobs. -/
def Client.Leaves (expected : List α) (values : List (Option α)) : Client α → Nat → Prop
  | .batch, count => count = 0
  | .job cell next, count =>
    ∃ result, expected[cell]? = some result ∧ (next values).Spends result count

/-- Whether `count` jobs are still to be made for a piece of work, if every job results in what
is expected of it. -/
def Piece.Leaves (expected : List α) : Piece α → Nat → Prop
  | .job task, count =>
    ∃ result, expected[task.cell]? = some result ∧ task.plan.Spends result count
  | .delivery _ _, count => count = 0
  | .fan client ⟨todo, out, results⟩, count =>
    ∃ (coming : List α) (made : List (α × Nat)) (later : Nat),
      List.Forall₂ (fun (cell : Nat) result => expected[cell]? = some result) out coming ∧
      List.Forall₂ (fun (plan : Plan α) own => plan.Spends own.1 own.2) todo made ∧
      client.Leaves expected (results ++ (coming ++ made.map Prod.fst).map some) later ∧
      count = (made.map fun own => own.2 + 1).sum + later

/-- Whether `count` jobs are still to be made for pieces of work. -/
def Piece.LeaveAll (expected : List α) (pieces : Multiset (Piece α)) (count : Nat) : Prop :=
  ∃ counts : Multiset Nat, Multiset.Rel (Piece.Leaves expected) pieces counts ∧
    counts.sum = count

theorem Client.Leaves.append {client : Client α} {values : List (Option α)} {count : Nat}
    (h : client.Leaves expected values count) (more : List α) :
    client.Leaves (expected ++ more) values count := by
  cases client with
  | batch => exact h
  | job cell next =>
      rcases h with ⟨result, hcell, hspends⟩
      exact ⟨result, expected_append hcell more, hspends⟩

namespace Piece

theorem Leaves.append {piece : Piece α} {count : Nat} (h : piece.Leaves expected count)
    (more : List α) : piece.Leaves (expected ++ more) count := by
  cases piece with
  | job task =>
      rcases h with ⟨result, hcell, hspends⟩
      exact ⟨result, expected_append hcell more, hspends⟩
  | delivery cell result => exact h
  | fan client fan =>
      rcases h with ⟨coming, made, later, hcoming, hmade, hlater, hcount⟩
      exact ⟨coming, made, later, hcoming.imp fun _ _ hcell => expected_append hcell more, hmade,
        hlater.append more, hcount⟩

theorem leaveAll_zero (expected : List α) : LeaveAll expected (0 : Multiset (Piece α)) 0 :=
  ⟨0, .zero, rfl⟩

theorem leaveAll_cons_iff {piece : Piece α} {pieces : Multiset (Piece α)} {count : Nat} :
    LeaveAll expected (piece ::ₘ pieces) count ↔
      ∃ own others, piece.Leaves expected own ∧ LeaveAll expected pieces others ∧
        count = own + others := by
  constructor
  · rintro ⟨counts, hcounts, rfl⟩
    rcases Multiset.rel_cons_left.mp hcounts with ⟨own, others, hown, hothers, rfl⟩
    exact ⟨own, others.sum, hown, ⟨others, hothers, rfl⟩, Multiset.sum_cons own others⟩
  · rintro ⟨own, others, hown, ⟨counts, hcounts, rfl⟩, rfl⟩
    exact ⟨own ::ₘ counts, .cons hown hcounts, Multiset.sum_cons own counts⟩

theorem LeaveAll.append {pieces : Multiset (Piece α)} {count : Nat}
    (h : LeaveAll expected pieces count) (more : List α) :
    LeaveAll (expected ++ more) pieces count := by
  rcases h with ⟨counts, hcounts, hsum⟩
  exact ⟨counts, hcounts.mono fun _ _ _ _ hleaves => hleaves.append more, hsum⟩

/-- A piece of work takes the place of one for which as many jobs were to be made. -/
theorem LeaveAll.replace {old new : Piece α} {pieces : Multiset (Piece α)} {count : Nat}
    (h : LeaveAll expected (old ::ₘ pieces) count)
    (hreplace : ∀ {own}, old.Leaves expected own → new.Leaves expected own) :
    LeaveAll expected (new ::ₘ pieces) count := by
  rcases leaveAll_cons_iff.mp h with ⟨own, others, hown, hothers, hcount⟩
  exact leaveAll_cons_iff.mpr ⟨own, others, hreplace hown, hothers, hcount⟩

/-- A job that is made is one less to be made. -/
theorem Leaves.make {client : Client α} {plan : Plan α} {todo : List (Plan α)} {out : List Nat}
    {results : List (Option α)} {cell count : Nat} {more : List α} {result : α}
    (h : (Piece.fan client ⟨plan :: todo, out, results⟩).Leaves expected count)
    (hcell : (expected ++ more)[cell]? = some result) (hyields : plan.Yields result) :
    ∃ own others, (Piece.job ⟨plan, cell⟩).Leaves (expected ++ more) own ∧
      (Piece.fan client ⟨todo, out ++ [cell], results⟩).Leaves (expected ++ more) others ∧
      count = own + others + 1 := by
  rcases h with ⟨coming, _ | ⟨⟨value, own⟩, made⟩, later, hcoming, hmade, hlater, hcount⟩
  · cases hmade
  rcases List.forall₂_cons.mp hmade with ⟨hplan, htodo⟩
  obtain rfl : result = value := hplan.yields.unique hyields
  refine ⟨own, (made.map fun own => own.2 + 1).sum + later, ⟨result, hcell, hplan⟩,
    ⟨coming ++ [result], made, later, ?_, htodo, ?_, rfl⟩, ?_⟩
  · exact List.rel_append (hcoming.imp fun _ _ hold => expected_append hold more)
      (.cons hcell .nil)
  · rw [List.append_assoc]
    exact hlater.append more
  · rw [hcount, List.map_cons, List.sum_cons]
    omega

/-- What a job is to make is what it hands out and what it makes when it goes on. -/
theorem Leaves.fork {cell count : Nat} {jobs : List (Plan α)} {next : List (Option α) → Plan α}
    (h : (Piece.job ⟨.fork jobs next, cell⟩).Leaves expected count) :
    (Piece.fan (.job cell next) ⟨jobs, [], []⟩).Leaves expected count := by
  rcases h with ⟨result, hcell, hspends⟩
  rcases Plan.spends_fork_iff.mp hspends with ⟨made, later, hmade, hlater, hcount⟩
  refine ⟨[], made, later, .nil, hmade, ⟨result, hcell, ?_⟩, hcount⟩
  rw [List.nil_append, List.nil_append, List.map_map]
  exact hlater

/-- Nothing is made when a result is received. -/
theorem Leaves.receive {client : Client α} {cell count : Nat} {result : α} {out : List Nat}
    {results : List (Option α)}
    (h : (Piece.fan client ⟨[], cell :: out, results⟩).Leaves expected count)
    (hresult : expected[cell]? = some result) :
    (Piece.fan client ⟨[], out, results ++ [some result]⟩).Leaves expected count := by
  rcases h with ⟨_ | ⟨first, coming⟩, made, later, hcoming, hmade, hlater, hcount⟩
  · cases hcoming
  rcases List.forall₂_cons.mp hcoming with ⟨hfirst, hcoming⟩
  obtain rfl := Option.some.inj (hfirst.symm.trans hresult)
  refine ⟨coming, made, later, hcoming, hmade, ?_, hcount⟩
  rw [List.append_assoc]
  exact hlater

/-- A job that goes on with its results is to make what it was to make. -/
theorem Leaves.resume {cell count : Nat} {next : List (Option α) → Plan α}
    {results : List (Option α)}
    (h : (Piece.fan (.job cell next) ⟨[], [], results⟩).Leaves expected count) :
    (Piece.job ⟨next results, cell⟩).Leaves expected count := by
  rcases h with ⟨coming, made, later, hcoming, hmade, ⟨result, hcell, hspends⟩, rfl⟩
  obtain rfl := List.forall₂_nil_left_iff.mp hcoming
  obtain rfl := List.forall₂_nil_left_iff.mp hmade
  rw [List.map_nil, List.append_nil, List.map_nil, List.append_nil] at hspends
  rw [List.map_nil, List.sum_nil, Nat.zero_add]
  exact ⟨result, hcell, hspends⟩

/-- Nothing is to be made any more for a batch that is answered. -/
theorem Leaves.eq_zero_of_done {count : Nat} {results : List (Option α)}
    (h : (Piece.fan .batch ⟨[], [], results⟩).Leaves expected count) : count = 0 := by
  rcases h with ⟨coming, made, later, -, hmade, hlater, rfl⟩
  obtain rfl := List.forall₂_nil_left_iff.mp hmade
  rw [show later = 0 from hlater]
  rfl

theorem eq_zero_of_leaveAll_zero {count : Nat}
    (h : LeaveAll expected (0 : Multiset (Piece α)) count) : count = 0 := by
  rcases h with ⟨counts, hcounts, rfl⟩
  rw [Multiset.rel_zero_left.mp hcounts, Multiset.sum_zero]

/-- A job that is done makes no job any more. -/
theorem Leaves.giveBack {cell count : Nat} {result : α}
    (h : (Piece.job ⟨.yield result, cell⟩).Leaves expected count) :
    (Piece.delivery cell result).Leaves expected count := by
  rcases h with ⟨other, hcell, hspends⟩
  exact (Plan.spends_yield_iff.mp hspends).2

end Piece

namespace Sound

variable {base count : Nat} {books after : Books α} {spent gained kept : Multiset (Piece α)}

/-- A result that is received is the one that is expected of its cell. -/
theorem exists_received {cells received : Bank α} {borrowed cell : Nat}
    {reply : ReceiveResult α} {result : Option α} {client : Client α} {out : List Nat}
    {results : List (Option α)}
    (h : Sound base goal expected ⟨cells, borrowed⟩
      (.fan client ⟨[], cell :: out, results⟩ ::ₘ kept))
    (hreceive : cells.perform (.receive cell) = (.received reply, received))
    (hsettled : reply.settled? = some result) :
    ∃ value, result = some value ∧ expected[cell]? = some value := by
  have hpiece := Multiset.mem_cons_self (Piece.fan client ⟨[], cell :: out, results⟩) kept
  rcases h.content_of_mem_out hpiece List.mem_cons_self with ⟨content, hcontent, hstate⟩
  rcases Bank.perform_receive hcontent (hstate.imp_right fun ⟨value, _, hsent⟩ => ⟨value, hsent⟩)
    hreceive hsettled with ⟨value, rfl, rfl, -⟩
  refine ⟨value, rfl, ?_⟩
  rcases hstate with hnew | ⟨other, hother, hsent⟩
  · cases hnew
  · cases hsent
    exact hother

/-- A step makes as many jobs as it takes from those that are left. -/
theorem leave {more : List α} (h : Sound base goal expected books (spent + kept))
    (hafter : Sound base goal (expected ++ more) after (gained + kept))
    (htrade : Trade books spent after gained)
    (hleave : Piece.LeaveAll expected (spent + kept) count) :
    ∃ left, Piece.LeaveAll (expected ++ more) (gained + kept) left ∧
      after.cells.cells.length + left = books.cells.cells.length + count := by
  cases htrade with
  | move books => exact ⟨count, hleave.append more, rfl⟩
  | make cells borrowed client plan todo out results =>
      rw [Multiset.singleton_add, Piece.leaveAll_cons_iff] at hleave
      rcases hleave with ⟨own, others, hown, hothers, rfl⟩
      have hjob : Piece.job ⟨plan, cells.cells.length⟩ ∈
          ({.job ⟨plan, cells.cells.length⟩,
            .fan client ⟨todo, out ++ [cells.cells.length], results⟩} : Multiset (Piece α)) +
              kept := by
        simp
      rcases hafter.keeps _ hjob with ⟨result, hcell, hyields⟩
      rcases hown.make hcell hyields with ⟨first, rest, hfirst, hrest, rfl⟩
      refine ⟨first + (rest + others), ?_, ?_⟩
      · rw [Multiset.insert_eq_cons, Multiset.cons_add, Multiset.singleton_add,
          Piece.leaveAll_cons_iff]
        exact ⟨first, rest + others, hfirst,
          Piece.leaveAll_cons_iff.mpr ⟨rest, others, hrest, hothers.append more, rfl⟩, rfl⟩
      · simp only [Bank.perform, List.length_append, List.length_singleton]
        omega
  | fork books cell jobs next =>
      rw [Multiset.singleton_add] at hleave ⊢
      exact ⟨count, (hleave.replace Piece.Leaves.fork).append more, rfl⟩
  | receive hreceive hsettled borrowed client out results =>
      rw [Multiset.singleton_add] at h hleave ⊢
      rcases h.exists_received hreceive hsettled with ⟨value, rfl, hvalue⟩
      refine ⟨count, (hleave.replace fun hown => hown.receive hvalue).append more, ?_⟩
      have hlength := congrArg (fun result => result.2.cells.length) hreceive
      rw [Bank.length_perform _ (by simp)] at hlength
      rw [hlength]
  | resume books cell next results =>
      rw [Multiset.singleton_add] at hleave ⊢
      exact ⟨count, (hleave.replace Piece.Leaves.resume).append more, rfl⟩
  | giveBack cells borrowed cell result =>
      rw [Multiset.singleton_add] at hleave ⊢
      exact ⟨count, (hleave.replace Piece.Leaves.giveBack).append more, rfl⟩
  | deliver cells borrowed cell result =>
      rw [Multiset.singleton_add, Piece.leaveAll_cons_iff] at hleave
      rcases hleave with ⟨own, others, hown, hothers, rfl⟩
      rw [zero_add]
      refine ⟨others, hothers.append more, ?_⟩
      rw [Bank.length_perform _ (by simp), show own = 0 from hown, Nat.zero_add]

end Sound

end

/-! ## What is counted -/

/-- Whether a job at hand was made and is not counted yet. -/
def Frame.isUncounted : Frame α → Bool
  | .offering _ => true
  | .posting _ _ => true
  | _ => false

/-- A step counts a job that it makes, or one that was not counted before, or leaves it to a
later step. -/
theorem Frame.Advances.counts {choice : Option Nat} {floor after : Floor α} {frame : Frame α}
    {frames : List (Frame α)} (hadvances : Advances choice floor frame frames after) :
    after.pool.jobs + frames.countP isUncounted + floor.cells.cells.length =
      floor.pool.jobs + [frame].countP isUncounted + after.cells.cells.length := by
  cases hadvances with
  | runLast client plan out results =>
      simp [isUncounted, Floor.make, Floor.countInline, Pool.jobs, Pool.lend, Bank.perform]
      omega
  | offer client plan next todo out results =>
      simp [isUncounted, List.countP_cons, Floor.make, Pool.jobs, Pool.lend, Bank.perform]
      omega
  | receive hreceive hsettled client out results =>
      have hlength := congrArg (fun result => result.2.cells.length) hreceive
      rw [Bank.length_perform _ (by simp)] at hlength
      simp only [hlength]
      rfl
  | resume cell next results => rfl
  | refuse hchoice task =>
      simp [isUncounted, Floor.countInline, Pool.jobs]
      omega
  | claim hchoice hdesk hfree task => rfl
  | miss hdesk hgone task =>
      simp [isUncounted, Floor.countInline, Pool.jobs]
      omega
  | post hdesk hserving hroom task =>
      simp [isUncounted, Floor.post, Floor.setDesk, Pool.jobs]
      omega
  | giveBack cell result => rfl
  | fork cell jobs next => rfl
  | deliver cell result => simp [isUncounted, Bank.length_perform]

namespace Workshop

/-- Number of jobs that were made and are not counted yet. -/
def uncounted (shop : Workshop α) : Nat :=
  shop.threads.flatten.countP Frame.isUncounted

/-- A worker that has nothing to do counts nothing. -/
theorem stepDesk_counts {shop after : Workshop α} {slot : Nat}
    (hidle : shop.threads[slot + 1]? = some []) (hstep : shop.stepDesk slot = some after) :
    after.floor.pool.jobs = shop.floor.pool.jobs ∧ after.uncounted = shop.uncounted ∧
      after.floor.cells = shop.floor.cells := by
  rw [stepDesk] at hstep
  split at hstep
  · cases hstep
  · rename_i desk hdesk
    rcases Option.map_eq_some_iff.mp hstep with ⟨⟨frames, other⟩, hturn, rfl⟩
    have hframes : frames.countP Frame.isUncounted = 0 := by
      rw [Desk.turn] at hturn
      split_ifs at hturn
      · obtain ⟨rfl, -⟩ := Prod.mk.inj (Option.some.inj hturn)
        rfl
      · split at hturn
        · cases hturn
        · obtain ⟨rfl, -⟩ := Prod.mk.inj (Option.some.inj hturn)
          rfl
    rcases exists_countP_flatten_set hidle Frame.isUncounted with ⟨others, hsame, hset⟩
    refine ⟨rfl, ?_, rfl⟩
    rw [uncounted, uncounted, hset, hsame, hframes, List.countP_nil]

/-- A step counts a job that it makes, or one that was not counted before, or leaves it to a
later step. -/
theorem step_counts {shop after : Workshop α} {move : Move}
    (hstep : shop.step move = some after) :
    after.floor.pool.jobs + after.uncounted + shop.floor.cells.cells.length =
      shop.floor.pool.jobs + shop.uncounted + after.floor.cells.cells.length := by
  rw [step] at hstep
  split at hstep
  · cases hstep
  · rename_i hidle
    split at hstep
    · cases hstep
    · rename_i slot hthread
      rw [hthread] at hidle
      rcases stepDesk_counts hidle hstep with ⟨hjobs, huncounted, hcells⟩
      rw [hjobs, huncounted, hcells]
  · rename_i frame rest hframes
    rcases Option.map_eq_some_iff.mp hstep with ⟨⟨frames, floor⟩, hadvance, rfl⟩
    rcases exists_countP_flatten_set hframes Frame.isUncounted with ⟨others, hsame, hset⟩
    have hcounts := (Frame.advances_of_advance hadvance).counts
    have hframe : (frame :: rest).countP Frame.isUncounted =
        [frame].countP Frame.isUncounted + rest.countP Frame.isUncounted := by
      rw [← List.countP_append]
      rfl
    simp only [uncounted, hset, hsame, hframe, List.countP_append]
    omega

/-- Every job that was made is counted once, or is still to be counted. -/
theorem jobs_of_run {shop after : Workshop α} {moves : List Move}
    (hrun : shop.run moves = some after) :
    after.floor.pool.jobs + after.uncounted + shop.floor.cells.cells.length =
      shop.floor.pool.jobs + shop.uncounted + after.floor.cells.cells.length := by
  induction moves generalizing shop with
  | nil =>
      obtain rfl := Option.some.inj hrun
      rfl
  | cons move moves ih =>
      rw [run, List.foldlM_cons] at hrun
      rcases Option.bind_eq_some_iff.mp hrun with ⟨next, hstep, hrest⟩
      have hfirst := step_counts hstep
      have hlater := ih hrest
      omega

/-- A workshop that is sound makes as many jobs as are left, and then stays sound. -/
theorem leave_of_run {base count : Nat} {goal : List (Option α)} {expected : List α}
    {shop after : Workshop α} {moves : List Move}
    (h : Sound base goal expected shop.floor.books shop.pieces)
    (hleave : Piece.LeaveAll expected shop.pieces count) (hrun : shop.run moves = some after) :
    ∃ expected left, Sound base goal expected after.floor.books after.pieces ∧
      Piece.LeaveAll expected after.pieces left ∧
      after.floor.cells.cells.length + left = shop.floor.cells.cells.length + count := by
  induction moves generalizing shop expected count with
  | nil =>
      obtain rfl := Option.some.inj hrun
      exact ⟨expected, count, h, hleave, rfl⟩
  | cons move moves ih =>
      rw [run, List.foldlM_cons] at hrun
      rcases Option.bind_eq_some_iff.mp hrun with ⟨next, hstep, hrest⟩
      rcases step_trades hstep with ⟨spent, gained, kept, htrade, hbefore, hafter⟩
      rw [hbefore] at h hleave
      rcases h.trade htrade with ⟨more, hnext⟩
      rcases h.leave hnext htrade hleave with ⟨left, hleft, hcount⟩
      rw [← hafter] at hnext hleft
      rcases ih hnext hleft hrest with ⟨values, rest, hsound, hend, hrestCount⟩
      exact ⟨values, rest, hsound, hend, hrestCount.trans hcount⟩

/-- When all results of a batch were received, all jobs of the batch were made and counted. -/
theorem jobs_of_results? {jobs : List (Plan α)} {made : List (α × Nat)}
    {pool : Pool (List (Desk α))} {moves : List Move} {shop : Workshop α}
    {results : List (Option α)}
    (hjobs : List.Forall₂ (fun job own => job.Spends own.1 own.2) jobs made)
    (hpool : ∀ desk ∈ pool.workers, desk.queue = [])
    (hrun : (opened jobs pool).run moves = some shop) (hresults : shop.results? = some results) :
    shop.floor.pool.jobs = pool.jobs + (made.map fun own => own.2 + 1).sum := by
  have hyields : List.Forall₂ Plan.Yields jobs (made.map Prod.fst) := by
    rw [List.forall₂_map_right_iff]
    exact hjobs.imp fun _ _ hspends => hspends.yields
  have hopened := sound_opened hyields hpool
  have hmade : Piece.LeaveAll [] (opened jobs pool).pieces
      (made.map fun own => own.2 + 1).sum := by
    rw [pieces_opened jobs hpool]
    refine Piece.leaveAll_cons_iff.mpr ⟨_, 0, ⟨[], made, 0, .nil, hjobs, rfl, rfl⟩,
      Piece.leaveAll_zero [], rfl⟩
  rcases leave_of_run hopened hmade hrun with ⟨expected, left, hsound, hleft, hcells⟩
  have hcounted := jobs_of_run hrun
  have huncounted : shop.uncounted = 0 := by
    rcases done_of_results? hsound hresults with ⟨-, -, -, -, hothers, -⟩
    rw [uncounted, threads_of_results? hresults, List.flatten_cons,
      List.flatten_eq_nil_iff.mpr hothers]
    rfl
  rw [pieces_of_results? hsound hresults] at hleft
  rcases Piece.leaveAll_cons_iff.mp hleft with ⟨own, others, hown, hothers, rfl⟩
  obtain rfl := Piece.Leaves.eq_zero_of_done hown
  obtain rfl := Piece.eq_zero_of_leaveAll_zero hothers
  have hopenedJobs : (opened jobs pool).floor.pool.jobs = pool.jobs := rfl
  have hopenedCells : (opened jobs pool).floor.cells.cells.length = 0 := rfl
  have hopenedUncounted : (opened jobs pool).uncounted = 0 := by
    have hidle : (pool.workers.map fun _ => ([] : List (Frame α))).flatten = [] := by
      rw [List.flatten_eq_nil_iff]
      exact fun frames hframes => (List.mem_map.mp hframes).choose_spec.2.symm
    rw [uncounted, opened, List.flatten_cons, hidle]
    rfl
  omega

end Workshop

end PhraseLedger
