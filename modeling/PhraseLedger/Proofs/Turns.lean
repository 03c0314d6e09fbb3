import PhraseLedger.Dispatch.Turns
import PhraseLedger.Dispatch.Workshop
import PhraseLedger.Proofs.Accounts
import PhraseLedger.Proofs.Rosters

/-!
# Turns of a thread at a pool

Whatever jobs a thread hands over, turn after turn, and whichever of them abort their threads:
until the workers are stopped a slot is free at the beginning of a turn exactly when its worker is
alive, so a job is refused only if no worker is alive and goes to the first one otherwise.  The
counters tell how many jobs were handed to workers and how many were run by the threads that had
them, those that other jobs hand out included.  Workers that are stopped report the jobs that were
handed to them.  Later jobs are run by the threads that have them.

Main definitions:

- Definition {lit}`Crew.recording`: a crew that writes down to whom jobs are handed.
- Definition {lit}`Errand`: a job that scans a fragment or answers a slice.
- Definition {lit}`Pool.takeAll`: a pool after turns and stops.
- Definition {lit}`Pool.handedAll`: the slots of the workers to which jobs were handed meanwhile.

Main results:

- Theorem {lit}`Pool.recording_agrees`: writing it down changes nothing.
- Theorem {lit}`Pool.Standing.take`: what a step keeps.
- Theorem {lit}`Pool.turns_are_accounted`: a pool after any steps.
-/

namespace PhraseLedger

variable {σ τ α β : Type}

/-- A crew that writes down the slots to which jobs are handed. -/
def Crew.recording (crew : Crew σ) : Crew (σ × List Nat) where
  claim := fun (workers, handed) =>
    match crew.claim workers with
    | (none, workers) => (none, workers, handed)
    | (some slot, workers) => (some slot, workers, handed ++ [slot])
  complete slot := fun (workers, handed) => (crew.complete slot workers, handed)
  bury slot := fun (workers, handed) => (crew.bury slot workers, handed)

/-- A pool together with the slots to which jobs were handed. -/
def Pool.recorded (pool : Pool σ) (handed : List Nat) : Pool (σ × List Nat) :=
  ⟨(pool.workers, handed), pool.dispatched, pool.inline, pool.borrowed⟩

/-! ## Errands -/

/-- A job that a thread makes: it scans a fragment or answers a slice.  Both may abort the thread
that runs the job. -/
inductive Errand where
  | scan (index : Index) (query : Query) (fragment : Span)
  | slice (index : Index) (settings : Settings) (queries : List Query)

/-- A job with its result as that of a batch. -/
def Job.to (product : α → β) (job : Job σ α) : Job σ β := fun pool =>
  let (result, pool) := job pool
  (result.map product, pool)

namespace Errand

/-- The job of an errand. -/
def job (crew : Crew σ) : Errand → Job σ Product
  | .scan index query fragment => Job.to .found (query.scanJob index fragment)
  | .slice index settings queries => Job.to .lines (Batch.sliceJob crew index settings queries)

/-- What the job of an errand results in; nothing if it aborts its thread. -/
def result? : Errand → Option Product
  | .scan index query fragment => (query.scanFragment index fragment).map .found
  | .slice index settings queries => (Batch.sliceResult? index settings queries).map .lines

/-- Number of jobs that an errand hands out: one for each fragment that its queries need, up to
the first query that aborts its thread. -/
def jobCount : Errand → Nat
  | .scan _ _ _ => 0
  | .slice _ settings queries =>
    ((queries.takeWhile (Query.fits settings)).map (Query.jobCount settings)).sum

/-- Whoever runs its jobs, an errand has its result. -/
theorem job_eq (errand : Errand) (crew : Crew σ) (pool : Pool σ) :
    ∃ after, errand.job crew pool = (errand.result?, after) ∧
      pool.Advances errand.jobCount after := by
  cases errand with
  | scan index query fragment => exact ⟨pool, rfl, .refl pool⟩
  | slice index settings queries =>
      have hadvances := Batch.sliceJob_costs crew index settings queries pool
      rcases Batch.sliceJob_ends crew index settings queries pool with ⟨after, hrun⟩
      rw [hrun] at hadvances
      refine ⟨after, ?_, hadvances⟩
      rw [job, Job.to, hrun]
      rfl

/-- An errand keeps true of two pools what their crews do. -/
theorem job_agrees {crew : Crew σ} {other : Crew τ} {holds : List Nat → Pool σ → Pool τ → Prop}
    (hcrew : crew.Agrees other holds) (errand : Errand) :
    Job.Agrees (errand.job crew) (errand.job other) holds := by
  intro busy pool copy h
  cases errand with
  | scan index query fragment => exact ⟨_, pool, copy, rfl, rfl, h⟩
  | slice index settings queries =>
      rcases Batch.sliceJob_agrees hcrew index settings queries busy pool copy h with
        ⟨result, after, later, hrun, htwin, hafter⟩
      refine ⟨result.map .lines, after, later, ?_, ?_, hafter⟩
      · rw [job, Job.to, hrun]
      · rw [job, Job.to, htwin]

end Errand

/-- What becomes of an errand that is handed over, if a worker takes it or not. -/
def Errand.fate (errand : Errand) (claimed : Bool) : Handover → Fate Product
  | .toWorker => if claimed then .taken errand.result? else .refused
  | .toAnyone =>
    if claimed then .taken errand.result?
    else errand.result?.elim .aborted fun result => .taken (some result)
  | .toSelf => errand.result?.elim .aborted .ranHere

/-- Whether no worker took a job that was offered, and nobody else ran it. -/
def Fate.isRefused : Fate α → Bool
  | .refused => true
  | _ => false

namespace Errand

theorem runInline_eq (errand : Errand) (crew : Crew σ) (pool : Pool σ) :
    ∃ after, Pool.runInline (errand.job crew) pool = (errand.result?, after) ∧
      after.jobs = pool.jobs + (errand.jobCount + 1) := by
  rcases errand.job_eq crew { pool with inline := pool.inline + 1 } with ⟨after, hrun, -, hjobs⟩
  refine ⟨after.giveBack, ?_, ?_⟩
  · rw [Pool.runInline, Pool.perform, hrun]
  · simp only [Pool.giveBack, Pool.jobs] at hjobs ⊢
    omega

/-- An errand whose claim takes a slot has its result there. -/
theorem trySubmit_of_some (errand : Errand) (crew : Crew σ) (pool : Pool σ) {slot : Nat}
    {workers : σ} (hclaim : crew.claim pool.workers = (some slot, workers)) :
    ∃ after, Pool.trySubmit crew (errand.job crew) pool = (.accepted errand.result?, after) ∧
      after.jobs = pool.jobs + (errand.jobCount + 1) := by
  rcases errand.job_eq crew { pool with workers := workers, dispatched := pool.dispatched + 1 }
    with ⟨after, hrun, -, hjobs⟩
  have hended : Pool.perform (errand.job crew)
      { pool with workers := workers, dispatched := pool.dispatched + 1 } =
        (errand.result?, after.giveBack) := by
    rw [Pool.perform, hrun]
  refine ⟨_, Pool.trySubmit_of_claim hclaim hended, ?_⟩
  simp only [Pool.giveBack, Pool.jobs] at hjobs ⊢
  omega

/-- An errand is refused only if it is for a worker and none takes it. -/
theorem isRefused_fate (errand : Errand) (claimed : Bool) (handover : Handover) :
    (errand.fate claimed handover).isRefused = (handover == .toWorker && !claimed) := by
  cases handover with
  | toWorker => cases claimed <;> rfl
  | toAnyone => cases claimed <;> simp only [fate] <;> cases errand.result? <;> rfl
  | toSelf => simp only [fate]; cases errand.result? <;> rfl

/-- An errand has its fate, and it is counted once if it is run, with the jobs that it hands
out. -/
theorem handOver_eq (errand : Errand) (crew : Crew σ) (handover : Handover) (pool : Pool σ) :
    ∃ after, pool.handOver crew handover (errand.job crew) =
        (errand.fate (crew.claim pool.workers).1.isSome handover, after) ∧
      after.jobs = pool.jobs +
        if (errand.fate (crew.claim pool.workers).1.isSome handover).isRefused then 0
        else errand.jobCount + 1 := by
  rw [isRefused_fate]
  cases handover with
  | toWorker =>
      rcases hclaim : crew.claim pool.workers with ⟨_ | slot, workers⟩
      · refine ⟨Pool.giveBack { pool.lend with workers := workers }, ?_, rfl⟩
        rw [Pool.handOver, Pool.trySubmit, show pool.lend.workers = pool.workers from rfl, hclaim]
        rfl
      · rcases errand.trySubmit_of_some crew pool.lend hclaim with ⟨after, hrun, hjobs⟩
        refine ⟨after, ?_, hjobs⟩
        rw [Pool.handOver, hrun]
        rfl
  | toAnyone =>
      rcases hclaim : crew.claim pool.workers with ⟨_ | slot, workers⟩
      · rcases errand.runInline_eq crew { pool.lend with workers := workers } with
          ⟨after, hrun, hjobs⟩
        refine ⟨after, ?_, hjobs⟩
        rw [Pool.handOver, Pool.submitOrRun, Pool.trySubmit,
          show pool.lend.workers = pool.workers from rfl, hclaim]
        simp only [hrun, fate]
        cases errand.result? <;> rfl
      · rcases errand.trySubmit_of_some crew pool.lend hclaim with ⟨after, hrun, hjobs⟩
        refine ⟨after, ?_, hjobs⟩
        rw [Pool.handOver, Pool.submitOrRun, hrun]
        rfl
  | toSelf =>
      rcases errand.runInline_eq crew pool.lend with ⟨after, hrun, hjobs⟩
      refine ⟨after, ?_, hjobs⟩
      rw [Pool.handOver, hrun]
      simp only [fate]
      cases errand.result? <;> rfl

end Errand

/-! ## Steps -/

/-- Something that is done to a pool. -/
inductive PoolStep where
  /-- A job is handed over, and the pool comes to rest. -/
  | hand (handover : Handover) (errand : Errand)
  /-- The workers are stopped. -/
  | shutDown

namespace Pool

/-- The pool after a step. -/
def take (pool : Pool Workers) : PoolStep → Pool Workers
  | .hand handover errand => (pool.turn handover (errand.job Workers.crew)).2
  | .shutDown => pool.shutDown.2

/-- The pool after steps. -/
def takeAll (pool : Pool Workers) (steps : List PoolStep) : Pool Workers :=
  steps.foldl take pool

/-- The slots to which jobs are handed in a step, in the order in which they are. -/
def handed (pool : Pool Workers) : PoolStep → List Nat
  | .hand handover errand =>
    ((pool.recorded []).handOver Workers.crew.recording handover
      (errand.job Workers.crew.recording)).2.workers.2
  | .shutDown => []

/-- The slots to which jobs are handed in steps. -/
def handedAll : Pool Workers → List PoolStep → List Nat
  | _, [] => []
  | pool, step :: rest => pool.handed step ++ handedAll (pool.take step) rest

/-- Number of jobs that are run in a step. -/
def ran (pool : Pool Workers) : PoolStep → Nat
  | .hand handover errand =>
    if (pool.turn handover (errand.job Workers.crew)).1.isRefused then 0
    else errand.jobCount + 1
  | .shutDown => 0

/-- Number of jobs that are run in steps. -/
def ranAll : Pool Workers → List PoolStep → Nat
  | _, [] => 0
  | pool, step :: rest => pool.ran step + ranAll (pool.take step) rest

/-- Jobs that are handed over have the same fate with two crews that agree. -/
theorem handOver_agrees {crew : Crew σ} {other : Crew τ}
    {holds : List Nat → Pool σ → Pool τ → Prop} (hcrew : crew.Agrees other holds)
    {job : Job σ α} {twin : Job τ α} (hjob : Job.Agrees job twin holds) {busy : List Nat}
    {pool : Pool σ} {copy : Pool τ} (h : holds busy pool copy) (handover : Handover) :
    ∃ fate after later, pool.handOver crew handover job = (fate, after) ∧
      copy.handOver other handover twin = (fate, later) ∧ holds busy after later := by
  have hlent := lend_agrees hcrew h
  cases handover with
  | toWorker =>
      rcases trySubmit_agrees hcrew hjob hlent with
        ⟨result | _, after, later, hrun, htwin, hafter⟩
      · exact ⟨.taken result, after, later, by simp only [handOver, hrun],
          by simp only [handOver, htwin], hafter⟩
      · exact ⟨.refused, after.giveBack, later.giveBack, by simp only [handOver, hrun],
          by simp only [handOver, htwin], giveBack_agrees hcrew hafter⟩
  | toAnyone =>
      rcases submitOrRun_agrees hcrew hjob hlent with
        ⟨_ | result, after, later, hrun, htwin, hafter⟩
      · exact ⟨.aborted, after, later, by simp only [handOver, hrun],
          by simp only [handOver, htwin], hafter⟩
      · exact ⟨.taken result, after, later, by simp only [handOver, hrun],
          by simp only [handOver, htwin], hafter⟩
  | toSelf =>
      rcases runInline_agrees hcrew hjob hlent with
        ⟨_ | result, after, later, hrun, htwin, hafter⟩
      · exact ⟨.aborted, after, later, by simp only [handOver, hrun],
          by simp only [handOver, htwin], hafter⟩
      · exact ⟨.ranHere result, after, later, by simp only [handOver, hrun],
          by simp only [handOver, htwin], hafter⟩

theorem jobs_rest (pool : Pool Workers) : pool.rest.jobs = pool.jobs := by
  rw [rest]
  split <;> rfl

/-- A turn ends with the fate of its errand, which depends on whether a worker takes it. -/
theorem fate_turn (pool : Pool Workers) (handover : Handover) (errand : Errand) :
    (pool.turn handover (errand.job Workers.crew)).1 =
      errand.fate pool.workers.claim.1.isSome handover := by
  rcases errand.handOver_eq Workers.crew handover pool with ⟨after, hrun, -⟩
  rw [turn, hrun]
  rfl

/-- Every job that is run in a step is counted once. -/
theorem jobs_take (pool : Pool Workers) (step : PoolStep) :
    (pool.take step).jobs = pool.jobs + pool.ran step := by
  cases step with
  | hand handover errand =>
      rcases errand.handOver_eq Workers.crew handover pool with ⟨after, hrun, hjobs⟩
      rw [take, ran, fate_turn, turn, hrun]
      exact (jobs_rest after).trans hjobs
  | shutDown => rfl

theorem jobs_takeAll (pool : Pool Workers) (steps : List PoolStep) :
    (pool.takeAll steps).jobs = pool.jobs + pool.ranAll steps := by
  induction steps generalizing pool with
  | nil => rfl
  | cons step rest ih =>
      rw [takeAll, List.foldl_cons, ← takeAll, ih, jobs_take, ranAll, Nat.add_assoc]

/-! ## Workers that are not stopped -/

/-- What is written down of workers that are not stopped: the jobs that they were handed, those of
`past` before and those of `front` at first. -/
theorem recording_agrees (size : Nat) (past front : List Nat) :
    Workers.crew.Agrees Workers.crew.recording fun busy pool copy =>
      ∃ handed, copy = pool.recorded handed ∧ front <+: handed ∧
        pool.workers.Kept size (past ++ handed) busy ∧
        pool.dispatched = (past ++ handed).length := by
  constructor
  · rintro busy pool copy borrowed inline ⟨handed, rfl, hfront, hkept, hdispatched⟩
    exact ⟨handed, rfl, hfront, hkept, hdispatched⟩
  · rintro busy pool copy workers ⟨handed, rfl, hfront, hkept, hdispatched⟩ hclaim
    have hcopy : Workers.crew.recording.claim (pool.workers, handed) =
        (none, workers, handed) := by
      simp only [Crew.recording, hclaim]
    exact ⟨_, hcopy, handed, rfl, hfront, hkept.refuse hclaim, hdispatched⟩
  · rintro busy pool copy workers slot ⟨handed, rfl, hfront, hkept, hdispatched⟩ hclaim
    have hcopy : Workers.crew.recording.claim (pool.workers, handed) =
        (some slot, workers, handed ++ [slot]) := by
      simp only [Crew.recording, hclaim]
    refine ⟨_, hcopy, handed ++ [slot], rfl,
      hfront.trans (List.prefix_append handed [slot]), ?_, ?_⟩
    · rw [← List.append_assoc]
      exact hkept.accept hclaim
    · rw [← List.append_assoc, List.length_append, ← hdispatched]
      rfl
  · rintro busy pool copy slot ⟨handed, rfl, hfront, hkept, hdispatched⟩
    exact ⟨handed, rfl, hfront, hkept.complete, hdispatched⟩
  · rintro busy pool copy slot ⟨handed, rfl, hfront, hkept, hdispatched⟩
    exact ⟨handed, rfl, hfront, hkept.bury, hdispatched⟩

/-- What holds of a pool before a turn if its workers are not stopped. -/
structure AtWork (size : Nat) (handed : List Nat) (pool : Pool Workers) : Prop where
  kept : pool.workers.Kept size handed []
  finished : pool.workers.finished = []
  dispatched : pool.dispatched = handed.length

/-- A turn ends when all living workers are idle, and the jobs that it hands to workers are
counted. -/
theorem AtWork.hand {size : Nat} {past : List Nat} {pool : Pool Workers}
    (h : pool.AtWork size past) (handover : Handover) (errand : Errand) :
    (pool.take (.hand handover errand)).AtWork size
      (past ++ pool.handed (.hand handover errand)) := by
  have hcrew := recording_agrees size past []
  rcases handOver_agrees hcrew (errand.job_agrees hcrew)
    ⟨[], rfl, List.prefix_rfl, (List.append_nil past).symm ▸ h.kept,
      (List.append_nil past).symm ▸ h.dispatched⟩ handover with
    ⟨fate, after, later, hrun, hcopy, handed, rfl, -, hkept, hdispatched⟩
  have hhanded : pool.handed (.hand handover errand) = handed := by
    rw [Pool.handed, hcopy]
    rfl
  have hrest : after.rest = { after with workers := after.workers.settle } := by
    rw [rest, hkept.serving]
    rfl
  rw [hhanded, take, turn, hrun]
  simp only [hrest]
  refine ⟨hkept.freeFinished _, ?_, hdispatched⟩
  simp [Workers.settle, Workers.freeFinished]

/-- Before a turn, a claim takes the slot of the first worker that is alive. -/
theorem AtWork.claim {size : Nat} {handed : List Nat} {pool : Pool Workers}
    (h : pool.AtWork size handed) :
    pool.workers.claim.1 = (List.range size).find? pool.workers.isAlive :=
  h.kept.claim_at_rest h.finished

/-- A job that is offered goes to the first worker that is alive, before the jobs that it hands
out go to others. -/
theorem AtWork.exists_handed {size slot : Nat} {past : List Nat} {pool : Pool Workers}
    (h : pool.AtWork size past)
    (hlowest : (List.range size).find? pool.workers.isAlive = some slot) (errand : Errand) :
    ∃ result last others, trySubmit Workers.crew.recording (errand.job Workers.crew.recording)
        (pool.recorded []).lend = (.accepted result, last) ∧
      last.workers.2 = slot :: others := by
  have hcrew := recording_agrees size past [slot]
  rcases hclaim : pool.workers.claim with ⟨found, workers⟩
  have hfound := h.claim
  rw [hlowest, hclaim] at hfound
  obtain rfl : found = some slot := hfound
  have hcopy : Workers.crew.recording.claim (pool.recorded []).lend.workers =
      (some slot, workers, [slot]) := by
    simp only [Crew.recording, recorded, lend, show Workers.crew.claim pool.workers = _ from hclaim]
    rfl
  let taken : Pool Workers :=
    { pool.lend with workers := workers, dispatched := pool.dispatched + 1 }
  have htaken : ∃ handed, taken.recorded [slot] = taken.recorded handed ∧ [slot] <+: handed ∧
      taken.workers.Kept size (past ++ handed) [slot] ∧
      taken.dispatched = (past ++ handed).length :=
    ⟨[slot], rfl, List.prefix_rfl, h.kept.accept hclaim,
      by rw [List.length_append, ← h.dispatched]; rfl⟩
  rcases perform_agrees hcrew (errand.job_agrees hcrew) htaken with
    ⟨result, after, later, -, hrun, handed, rfl, ⟨others, rfl⟩, -⟩
  refine ⟨result, _, others, trySubmit_of_claim hcopy hrun, ?_⟩
  cases result <;> rfl

/-- The slots to which the jobs of a turn are handed begin with that of the first worker that is
alive, if the job of the turn is offered. -/
theorem AtWork.head?_handed {size slot : Nat} {past : List Nat} {pool : Pool Workers}
    (h : pool.AtWork size past)
    (hlowest : (List.range size).find? pool.workers.isAlive = some slot) {handover : Handover}
    (hoffers : handover ≠ .toSelf) (errand : Errand) :
    (pool.handed (.hand handover errand)).head? = some slot := by
  rcases h.exists_handed hlowest errand with ⟨result, last, others, hoffer, hhanded⟩
  cases handover with
  | toSelf => exact absurd rfl hoffers
  | toWorker =>
      rw [handed, handOver, hoffer]
      exact congrArg List.head? hhanded
  | toAnyone =>
      rw [handed, handOver, submitOrRun, hoffer]
      exact congrArg List.head? hhanded

/-- What holds of a pool before a turn for those that use it, if its workers are not stopped and
jobs were handed to those of the slots of `handed`. -/
structure Serving (size : Nat) (handed : List Nat) (pool : Pool Workers) : Prop where
  /-- A slot is free exactly when its worker is alive. -/
  free : ∀ slot < size,
    pool.workers.slots.isClaimed? slot = some (!pool.workers.isAlive slot)
  /-- No claim found a slot whose worker was gone. -/
  quiet : pool.workers.warnings = []
  /-- A worker takes a job that is offered, if one is alive. -/
  fates : ∀ (handover : Handover) (errand : Errand), (pool.turn handover (errand.job Workers.crew)).1 =
    errand.fate ((List.range size).any pool.workers.isAlive) handover
  /-- A job that is offered goes to the first worker that is alive. -/
  lowest : ∀ slot, (List.range size).find? pool.workers.isAlive = some slot →
    ∀ (handover : Handover) (errand : Errand), handover ≠ .toSelf →
      (pool.handed (.hand handover errand)).head? = some slot
  /-- The workers that are alive report the jobs that were handed to them, in the order of their
  slots. -/
  reports : pool.shutDown.1 =
    ((List.range size).filter pool.workers.isAlive).map fun slot => (slot, handed.count slot)

/-- A pool before a turn serves those that use it. -/
theorem AtWork.serving {size : Nat} {handed : List Nat} {pool : Pool Workers}
    (h : pool.AtWork size handed) : pool.Serving size handed := by
  constructor
  · intro slot hslot
    have hfree : pool.workers.slots.bit slot = false ↔ pool.workers.isAlive slot = true := by
      rw [h.kept.free_iff slot hslot, h.finished]
      simp only [List.not_mem_nil, not_false_eq_true, and_true]
    rw [SlotSet.isClaimed?, h.kept.bounds.slots, if_pos hslot, Option.some.injEq,
      Bool.eq_iff_iff, Bool.not_eq_true', ← Bool.not_eq_false, hfree, Bool.not_eq_true]
  · exact h.kept.quiet
  · intro handover errand
    rw [fate_turn, h.claim]
    congr 1
    rw [Bool.eq_iff_iff, List.find?_isSome, List.any_eq_true]
  · exact fun slot hlowest handover errand hoffers => h.head?_handed hlowest hoffers errand
  · exact h.kept.stop_reports

/-! ## Workers that are stopped -/

/-- What holds of a pool whose workers were stopped, if it had `slots` free slots and claims
before. -/
structure Shut (slots : Nat) (handed : List Nat) (pool : Pool Workers) : Prop where
  closed : pool.workers.Closed
  dispatched : pool.dispatched = handed.length
  slots : slots ≤ pool.workers.idleCount + pool.workers.claims

/-- Workers that are stopped take no job, and every claim costs one slot at most. -/
theorem shut_agrees (slots : Nat) (past : List Nat) :
    Workers.crew.Agrees Workers.crew.recording fun busy pool copy =>
      busy = [] ∧ copy = pool.recorded [] ∧ pool.Shut slots past := by
  constructor
  · rintro busy pool copy borrowed inline ⟨rfl, rfl, hclosed, hdispatched, hslots⟩
    exact ⟨rfl, rfl, hclosed, hdispatched, hslots⟩
  · rintro busy pool copy workers ⟨rfl, rfl, hclosed, hdispatched, hslots⟩ hclaim
    rcases hclosed.claim with ⟨after, hafter, hclosedAfter, -, hclaims, -, hidle⟩
    obtain ⟨-, rfl⟩ := Prod.mk.inj (hafter.symm.trans hclaim)
    have hcopy : Workers.crew.recording.claim (pool.workers, []) = (none, after, []) := by
      simp only [Crew.recording, show Workers.crew.claim pool.workers = _ from hclaim]
    refine ⟨_, hcopy, rfl, rfl, hclosedAfter, hdispatched, ?_⟩
    simp only
    omega
  · rintro busy pool copy workers slot ⟨rfl, rfl, hclosed, -⟩ hclaim
    rcases hclosed.claim with ⟨after, hafter, -⟩
    cases hafter.symm.trans hclaim
  · rintro busy pool copy slot ⟨hbusy, -⟩
    cases hbusy
  · rintro busy pool copy slot ⟨hbusy, -⟩
    cases hbusy

/-- Nobody but the threads that have them runs jobs of a pool whose workers were stopped. -/
theorem Shut.take {slots : Nat} {past : List Nat} {pool : Pool Workers} (h : pool.Shut slots past)
    (step : PoolStep) : (pool.take step).Shut slots past ∧ pool.handed step = [] := by
  cases step with
  | hand handover errand =>
      have hcrew := shut_agrees slots past
      rcases handOver_agrees hcrew (errand.job_agrees hcrew) ⟨rfl, rfl, h⟩ handover with
        ⟨fate, after, later, hrun, hcopy, -, rfl, hafter⟩
      have hrest : after.rest = after := by
        rw [rest, if_pos hafter.closed.stopped]
      refine ⟨?_, ?_⟩
      · rw [Pool.take, turn, hrun]
        simp only [hrest]
        exact hafter
      · rw [handed, hcopy]
        rfl
  | shutDown =>
      have hstop : pool.workers.stop = ([], pool.workers) := by
        rw [Workers.stop, if_pos h.closed.stopped]
      rw [Pool.take, shutDown, hstop]
      exact ⟨h, rfl⟩

theorem Shut.takeAll {slots : Nat} {past : List Nat} {pool : Pool Workers}
    (h : pool.Shut slots past) (steps : List PoolStep) :
    (pool.takeAll steps).Shut slots (past ++ pool.handedAll steps) := by
  induction steps generalizing pool with
  | nil => exact (List.append_nil past).symm ▸ h
  | cons step rest ih =>
      rcases h.take step with ⟨hafter, hhanded⟩
      rw [Pool.takeAll, List.foldl_cons, ← Pool.takeAll, handedAll, hhanded]
      exact ih hafter

/-- What holds of a pool whose workers were stopped, for those that use it. -/
structure Retired (pool : Pool Workers) : Prop where
  /-- Workers that are stopped again report nothing. -/
  reports : pool.shutDown.1 = []
  /-- A job that is offered is handed back and not counted, and a slot is lost at most. -/
  tries : ∀ {α : Type} (job : Job Workers α), ∃ after,
    trySubmit Workers.crew job pool = (.refused, after) ∧ after.jobs = pool.jobs ∧
      after.dispatched = pool.dispatched ∧
      after.workers.idleCount ≤ pool.workers.idleCount ∧
      pool.workers.idleCount ≤ after.workers.idleCount + 1
  /-- No worker takes a job. -/
  fates : ∀ (handover : Handover) (errand : Errand), (pool.turn handover (errand.job Workers.crew)).1 =
    errand.fate false handover
  /-- All jobs of a turn are run by the threads that have them, and every job that is offered
  meanwhile costs one slot at most. -/
  turns : ∀ (handover : Handover) (errand : Errand),
    let after := (pool.turn handover (errand.job Workers.crew)).2
    after.dispatched = pool.dispatched ∧
      after.inline = pool.inline + pool.ran (.hand handover errand) ∧
      pool.workers.idleCount + pool.workers.claims ≤
        after.workers.idleCount + after.workers.claims

theorem Shut.retired {slots : Nat} {past : List Nat} {pool : Pool Workers}
    (h : pool.Shut slots past) : pool.Retired := by
  rcases h.closed.claim with ⟨workers, hclaim, hclosed, -, -, hmost, hleast⟩
  constructor
  · exact h.closed.stop_reports
  · intro α job
    refine ⟨{ pool with workers := workers }, ?_, rfl, rfl, hmost, hleast⟩
    rw [trySubmit, show Workers.crew.claim pool.workers = _ from hclaim]
  · intro handover errand
    rw [fate_turn, hclaim]
    rfl
  · intro handover errand
    have hbefore : pool.Shut (pool.workers.idleCount + pool.workers.claims) past :=
      ⟨h.closed, h.dispatched, le_rfl⟩
    have hafter := (hbefore.take (.hand handover errand)).1
    have hdispatched : (pool.turn handover (errand.job Workers.crew)).2.dispatched =
        pool.dispatched := hafter.dispatched.trans h.dispatched.symm
    have hjobs : (pool.turn handover (errand.job Workers.crew)).2.jobs =
        pool.jobs + pool.ran (.hand handover errand) := jobs_take pool (.hand handover errand)
    refine ⟨hdispatched, ?_, hafter.slots⟩
    simp only [jobs] at hjobs
    omega

/-! ## Steps after steps -/

/-- What any steps lead to from workers that are not stopped. -/
theorem AtWork.takeAll {size : Nat} {past : List Nat} {pool : Pool Workers}
    (h : pool.AtWork size past) (steps : List PoolStep) :
    (.shutDown ∉ steps → (pool.takeAll steps).AtWork size (past ++ pool.handedAll steps)) ∧
      (.shutDown ∈ steps → (pool.takeAll steps).Shut 0 (past ++ pool.handedAll steps)) := by
  induction steps generalizing past pool with
  | nil =>
      exact ⟨fun _ => (List.append_nil past).symm ▸ h,
        fun hstop => absurd hstop List.not_mem_nil⟩
  | cons step rest ih =>
      rw [Pool.takeAll, List.foldl_cons, ← Pool.takeAll, handedAll]
      cases step with
      | hand handover errand =>
          rw [← List.append_assoc]
          have hnext := ih (h.hand handover errand)
          simp only [List.mem_cons, reduceCtorEq, false_or]
          exact hnext
      | shutDown =>
          refine ⟨fun hstop => absurd List.mem_cons_self hstop, fun _ => ?_⟩
          have hshut : (pool.take .shutDown).Shut 0 past :=
            ⟨pool.workers.closed_stop h.finished, h.dispatched, Nat.zero_le _⟩
          exact hshut.takeAll rest

/-- Whatever a thread does to a pool, the jobs that were handed to workers are counted there and
all others where they were run.  Until it stops the workers, the pool serves it, and from then on
the thread has its jobs to itself. -/
theorem turns_are_accounted {size : Nat} {schedule : Schedule} {pool : Pool Workers}
    (hpool : ofSize size schedule = .ok pool) (steps : List PoolStep) :
    (pool.takeAll steps).dispatched = (pool.handedAll steps).length ∧
      (pool.takeAll steps).dispatched + (pool.takeAll steps).inline = pool.ranAll steps ∧
      (.shutDown ∉ steps → (pool.takeAll steps).Serving size (pool.handedAll steps)) ∧
      (.shutDown ∈ steps → (pool.takeAll steps).Retired) := by
  rw [ofSize] at hpool
  split_ifs at hpool
  obtain rfl := Except.ok.inj hpool
  have hstart : (Pool.start (.idle size schedule)).AtWork size [] :=
    ⟨Workers.kept_idle size schedule, rfl, rfl⟩
  rcases hstart.takeAll steps with ⟨hwork, hshut⟩
  rw [List.nil_append] at hwork hshut
  have hjobs := jobs_takeAll (Pool.start (.idle size schedule)) steps
  refine ⟨?_, hjobs.trans (Nat.zero_add _), fun hopen => (hwork hopen).serving,
    fun hstop => (hshut hstop).retired⟩
  by_cases hstop : PoolStep.shutDown ∈ steps
  · exact (hshut hstop).dispatched
  · exact (hwork hstop).dispatched

/-- Three workers are handed a scan, a scan that aborts the first of them, and a slice whose two
documents are cut.  The thread runs another such slice and a scan that aborts itself.  Then it
stops the workers, and their slots are lost one by one to the jobs that it hands over later. -/
theorem turns_are_accounted_three_workers :
    let index := Index.empty.add (Text.ofString "a") 0
    let query : Query := ⟨Text.ofString "a b a b", 1⟩
    let slice : Errand := .slice index ⟨3, 2, 2, 1⟩ [query, query]
    let front : List PoolStep :=
      [.hand .toWorker (.scan index query ⟨0, 7⟩), .hand .toAnyone (.scan index query ⟨9, 1⟩),
        .hand .toAnyone slice, .hand .toSelf slice, .hand .toSelf (.scan index query ⟨9, 1⟩)]
    let back : List PoolStep :=
      [.shutDown, .hand .toWorker (.scan index query ⟨0, 7⟩), .hand .toAnyone slice]
    ∃ pool : Pool Workers,
      ofSize 3 Workers.prompt = .ok pool ∧
        pool.handedAll front = [0, 0, 1, 2, 2, 1, 1] ∧
        (pool.takeAll front).Serving 3 [0, 0, 1, 2, 2, 1, 1] ∧
        (pool.takeAll front).shutDown.1 = [(1, 3), (2, 2)] ∧
        (pool.takeAll front).dispatched = 7 ∧ (pool.takeAll front).inline = 6 ∧
        (pool.takeAll (front ++ back)).Retired ∧
        (pool.takeAll (front ++ back)).dispatched = 7 ∧
        (pool.takeAll (front ++ back)).inline = 11 := by
  intro index query slice front back
  let pool : Pool Workers := .start (.idle 3 Workers.prompt)
  have hpool : ofSize 3 Workers.prompt = .ok pool := rfl
  have hopen : PoolStep.shutDown ∉ front := by simp [front]
  have hstop : PoolStep.shutDown ∈ front ++ back := by simp [back]
  have hhanded : pool.handedAll front = [0, 0, 1, 2, 2, 1, 1] ∧
      pool.handedAll (front ++ back) = [0, 0, 1, 2, 2, 1, 1] ∧
      pool.ranAll front = 13 ∧ pool.ranAll (front ++ back) = 18 := by
    decide +kernel
  rcases hhanded with ⟨hfront, hall, hran, hranAll⟩
  rcases turns_are_accounted hpool front with ⟨hdispatched, hjobs, hserving, -⟩
  rcases turns_are_accounted hpool (front ++ back) with ⟨hlast, hjobsLast, -, hretired⟩
  have hserves := hserving hopen
  rw [hfront] at hdispatched hserves
  rw [hall] at hlast
  rw [hdispatched, hran] at hjobs
  rw [hlast, hranAll] at hjobsLast
  refine ⟨pool, hpool, hfront, hserves, hserves.reports.trans ?_, hdispatched, ?_, hretired hstop,
    hlast, ?_⟩
  · decide +kernel
  · exact Nat.add_left_cancel hjobs
  · exact Nat.add_left_cancel hjobsLast

end Pool

end PhraseLedger
