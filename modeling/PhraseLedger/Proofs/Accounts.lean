import Mathlib.Algebra.Ring.Nat
import Mathlib.Data.List.TakeWhile
import PhraseLedger.Proofs.Dispatch

/-!
# The accounts of a pool

A job borrows the index and returns it, and it is counted where it is run.  Whoever runs
the jobs of a batch, in the end nobody borrows the index any more, and the number of jobs
that were counted depends on the queries and the settings only.

Main results:

- Theorem {lit}`Pool.fanOut_advances`: the accounts after jobs were handed out.
- Theorem {lit}`Query.answer_advances`: the accounts after a query.
- Theorem {lit}`Batch.poolAfter_advances`: the accounts after a batch.
-/

namespace PhraseLedger

variable {σ α ι : Type}

namespace Pool

/-- Whether the accounts of a pool moved on by `count` jobs, all of which returned the
index. -/
structure Advances (count : Nat) (pool after : Pool σ) : Prop where
  borrowed : after.borrowed = pool.borrowed
  jobs : after.jobs = pool.jobs + count

theorem Advances.refl (pool : Pool σ) : Advances 0 pool pool :=
  ⟨rfl, rfl⟩

theorem Advances.trans {first second : Nat} {pool between after : Pool σ}
    (hfirst : Advances first pool between) (hsecond : Advances second between after) :
    Advances (first + second) pool after := by
  constructor
  · rw [hsecond.borrowed, hfirst.borrowed]
  · rw [hsecond.jobs, hfirst.jobs, Nat.add_assoc]

end Pool

namespace Job

/-- Whether a job hands out `count` jobs on its way, on every pool and however it ends. -/
def Costs (job : Job σ α) (count : Nat) : Prop :=
  ∀ pool, Pool.Advances count pool (job pool).2

end Job

namespace Pool

/-! ## Handing out jobs -/

/-- A job that is run by the thread that has it is counted there. -/
theorem runInline_advances {job : Job σ α} {count : Nat} (hjob : Job.Costs job count)
    (pool : Pool σ) : Advances (count + 1) pool (runInline job pool.lend).2 := by
  rcases hjob { pool.lend with inline := pool.inline + 1 } with ⟨hborrowed, hjobs⟩
  constructor
  · simp only [runInline, perform, giveBack]
    rw [show pool.lend.inline = pool.inline from rfl, hborrowed]
    rfl
  · simp only [runInline, perform, giveBack, jobs, lend] at hjobs ⊢
    omega

/-- A job that is offered to a crew is counted once: as handed out, or where the thread
itself runs it. -/
theorem submitOrRun_advances {job : Job σ α} {count : Nat} (hjob : Job.Costs job count)
    (crew : Crew σ) (pool : Pool σ) :
    Advances (count + 1) pool (submitOrRun crew job pool.lend).2 := by
  rw [submitOrRun, trySubmit, show pool.lend.workers = pool.workers from rfl]
  rcases crew.claim pool.workers with ⟨_ | slot, workers⟩
  · have hinline := runInline_advances hjob { pool with workers := workers }
    simp only [show ({ pool.lend with workers := workers } : Pool σ) =
      lend { pool with workers := workers } from rfl]
    rcases hrun : runInline job _ with ⟨_ | result, after⟩ <;> rw [hrun] at hinline <;>
      exact ⟨hinline.borrowed, hinline.jobs⟩
  · rcases hjob { pool.lend with workers := workers, dispatched := pool.dispatched + 1 } with
      ⟨hborrowed, hjobs⟩
    constructor
    · simp only [perform, giveBack]
      rw [show pool.lend.dispatched = pool.dispatched from rfl, hborrowed]
      rfl
    · simp only [perform, giveBack, jobs, lend] at hjobs ⊢
      omega

/-- Jobs that return the index are handed out and return it, whether one of them aborts the
thread or not. -/
theorem fanOut_borrowed (crew : Crew σ) {jobs : List (Job σ α)}
    (hjobs : ∀ job ∈ jobs, ∃ count, Job.Costs job count) (pool : Pool σ) :
    (fanOut crew jobs pool).2.borrowed = pool.borrowed := by
  induction jobs generalizing pool with
  | nil => rfl
  | cons job rest ih =>
      obtain ⟨count, hjob⟩ := hjobs job List.mem_cons_self
      cases rest with
      | nil =>
          have hlast := (runInline_advances hjob pool).borrowed
          rw [fanOut]
          rcases hrun : runInline job pool.lend with ⟨_ | result, after⟩ <;> rwa [hrun] at hlast
      | cons next later =>
          have hfirst := (submitOrRun_advances hjob crew pool).borrowed
          have hrest := ih fun other hother => hjobs other (List.mem_cons_of_mem job hother)
          rw [fanOut]
          rcases hrun : submitOrRun crew job pool.lend with ⟨_ | result, between⟩ <;>
            rw [hrun] at hfirst
          · exact hfirst
          · have hlater := (hrest between).trans hfirst
            rcases hfan : fanOut crew (next :: later) between with ⟨_ | results, after⟩ <;>
              rw [hfan] at hlater <;> simpa only [hfan] using hlater

/-- Jobs that are handed out are counted once each, with all jobs that they hand out, if they
abort no thread. -/
theorem fanOut_advances (crew : Crew σ) (items : List ι) {job : ι → Job σ α} {result : ι → α}
    {count : ι → Nat} (hends : ∀ item ∈ items, Job.Ends (job item) (some (result item)))
    (hjobs : ∀ item ∈ items, Job.Costs (job item) (count item)) (pool : Pool σ) :
    Advances (items.map fun item => count item + 1).sum pool
      (fanOut crew (items.map job) pool).2 := by
  induction items generalizing pool with
  | nil => exact Advances.refl pool
  | cons item items ih =>
      have hend := hends item List.mem_cons_self
      have hjob := hjobs item List.mem_cons_self
      cases items with
      | nil =>
          have hadvances := runInline_advances hjob pool
          rcases runInline_of_ends hend pool.lend with ⟨after, hrun⟩
          rw [hrun] at hadvances
          simpa only [List.map_cons, List.map_nil, List.sum_singleton, fanOut, hrun] using hadvances
      | cons next rest =>
          have hfirst := submitOrRun_advances hjob crew pool
          rcases submitOrRun_of_ends hend crew pool.lend with ⟨between, hrun | ⟨hnone, -⟩⟩
          · rw [hrun] at hfirst
            have hlaterEnds : ∀ other ∈ next :: rest, Job.Ends (job other) (some (result other)) :=
              fun other hother => hends other (List.mem_cons_of_mem item hother)
            have hlast := ih hlaterEnds
              (fun other hother => hjobs other (List.mem_cons_of_mem item hother)) between
            rcases fanOut_map crew (next :: rest) hlaterEnds between with ⟨after, hrest⟩
            rw [hrest] at hlast
            rw [List.map_cons] at hrest
            simp only [List.map_cons, fanOut, hrun, hrest]
            exact hfirst.trans hlast
          · cases hnone

end Pool

namespace Query

/-! ## Queries -/

/-- Number of jobs that scan fragments of the document of a query. -/
def jobCount (settings : Settings) (query : Query) : Nat :=
  if query.isSplit settings then (query.pieces settings).length else 0

/-- The scan of a fragment hands out no further job. -/
theorem scanJob_costs (index : Index) (query : Query) (fragment : Span) :
    Job.Costs (σ := σ) (query.scanJob index fragment) 0 :=
  fun pool => Pool.Advances.refl pool

/-- A query costs one job for each fragment of its document, if that is cut. -/
theorem answer_advances (crew : Crew σ) (index : Index) {settings : Settings} {query : Query}
    (hfits : query.fits settings = true) (pool : Pool σ) :
    pool.Advances (query.jobCount settings) (query.answer crew index settings pool).2 := by
  rw [answer, jobCount]
  split
  · rename_i hsplit
    have hends : ∀ fragment ∈ query.pieces settings, Job.Ends (σ := σ)
        (query.scanJob index fragment) (some (query.matchesOf index fragment)) :=
      fun _ hfragment => scanJob_ends index query hfragment
    have hadvances := Pool.fanOut_advances crew (query.pieces settings) hends
      (fun fragment _ => scanJob_costs index query fragment) pool
    rcases Pool.fanOut_map crew (query.pieces settings) hends pool with ⟨after, hfan⟩
    have hcount : ((query.pieces settings).map fun _ => 0 + 1).sum =
        (query.pieces settings).length := by
      simp
    rw [hcount, hfan] at hadvances
    simp only [pieces?_of_isSplit hsplit, if_pos hfits, hfan]
    split <;> exact hadvances
  · exact Pool.Advances.refl pool

end Query

namespace Batch

/-! ## Batches -/

/-- Number of jobs that a batch takes: one for each slice, and those of its queries. -/
def jobCount (settings : Settings) (queries : List Query) : Nat :=
  ((Slice.split queries settings.parallelism).map fun slice =>
    (slice.map (Query.jobCount settings)).sum + 1).sum

/-- Queries that are answered one after the other cost what each of them costs, up to the
first one for which there is no room. -/
theorem answerLines_advances (crew : Crew σ) (index : Index) (settings : Settings)
    (queries : List Query) (pool : Pool σ) :
    pool.Advances ((queries.takeWhile (Query.fits settings)).map (Query.jobCount settings)).sum
      (answerLines crew index settings queries pool).2 := by
  induction queries generalizing pool with
  | nil => exact Pool.Advances.refl pool
  | cons query queries ih =>
      rw [answerLines]
      cases hfits : query.fits settings with
      | false =>
          rw [Query.answer_of_not_fits crew index hfits,
            List.takeWhile_cons_of_neg (by simp [hfits])]
          exact Pool.Advances.refl pool
      | true =>
          have hfirst := Query.answer_advances crew index hfits pool
          rcases Query.exists_answer crew index hfits pool with ⟨between, hanswer⟩
          have hsecond := ih between
          rw [hanswer] at hfirst
          rw [List.takeWhile_cons_of_pos hfits, hanswer]
          simp only [List.map_cons, List.sum_cons]
          rcases hlines : answerLines crew index settings queries between with
            ⟨_ | lines, after⟩ <;> rw [hlines] at hsecond <;> exact hfirst.trans hsecond

/-- A slice costs what its queries cost, up to the first one for which there is no room. -/
theorem sliceJob_costs (crew : Crew σ) (index : Index) (settings : Settings)
    (queries : List Query) :
    Job.Costs (sliceJob crew index settings queries)
      ((queries.takeWhile (Query.fits settings)).map (Query.jobCount settings)).sum := by
  intro pool
  have hadvances := answerLines_advances crew index settings queries pool
  rcases hlines : answerLines crew index settings queries pool with
    ⟨(_ | _) | lines, after⟩ <;> rw [hlines] at hadvances <;>
    simpa only [sliceJob, hlines] using hadvances

/-- Nobody borrows the index after a batch who did not before, whether the batch is answered or
not. -/
theorem borrowed_answerTo (crew : Crew σ) (index : Index) (settings : Settings)
    (queries : List Query) (pool : Pool σ) (sink : Sink) :
    (answerTo crew index settings queries pool sink).2.1.borrowed = pool.borrowed := by
  have hcosts : ∀ job ∈ (Slice.split queries settings.parallelism).map
      (sliceJob crew index settings), ∃ count, Job.Costs job count :=
    List.forall_mem_map.mpr fun slice _ => ⟨_, sliceJob_costs crew index settings slice⟩
  have hfan := Pool.fanOut_borrowed crew hcosts pool
  rw [answerTo]
  split
  · rfl
  · rcases hrun : Pool.fanOut crew _ pool with ⟨_ | results, after⟩ <;> rw [hrun] at hfan
    · exact hfan
    · rcases hdeliver : deliver results sink with ⟨_ | _, written⟩ <;>
        simpa only [hrun, hdeliver] using hfan

/-- The accounts after a batch do not depend on who ran its jobs. -/
theorem poolAfter_advances (crew : Crew σ) (index : Index) {settings : Settings}
    {queries : List Query} (hfits : ∀ query ∈ queries, query.fits settings = true)
    (pool : Pool σ) :
    pool.Advances (jobCount settings queries)
      (poolAfter crew index settings queries pool) := by
  have hslices : ∀ slice ∈ Slice.split queries settings.parallelism,
      ∀ query ∈ slice, query.fits settings = true :=
    fun _ hslice => fits_of_mem_split hfits hslice
  rw [poolAfter, jobCount]
  generalize Slice.split queries settings.parallelism = slices at hslices
  cases slices with
  | nil => exact Pool.Advances.refl pool
  | cons slice slices =>
      have hends : ∀ queries ∈ slice :: slices, Job.Ends (sliceJob crew index settings queries)
          (some (.ok (queries.flatMap (Query.line index)))) := by
        intro queries hqueries
        rw [← sliceResult?_of_fits index (hslices queries hqueries)]
        exact sliceJob_ends crew index settings queries
      refine Pool.fanOut_advances crew (slice :: slices) hends (fun queries hqueries => ?_) pool
      have hcosts := sliceJob_costs crew index settings queries
      rwa [List.takeWhile_eq_self_iff.mpr (hslices queries hqueries)] at hcosts

end Batch

end PhraseLedger
