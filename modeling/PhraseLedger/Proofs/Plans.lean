import PhraseLedger.Dispatch.Workshop
import PhraseLedger.Proofs.Accounts
import Mathlib.Data.List.Forall2

/-!
# What is left of a job

A job that hands out jobs goes on with their results, so what it results in is settled by what
they result in, and so is how many jobs it makes on its way.  The jobs of a batch result in the
lines of its queries and abort no thread, if there is room for the fragments of their documents,
and they make one job for each fragment.

Main definitions:

- Definition {lit}`Plan.Yields`: what a job results in if none of its jobs is lost.
- Definition {lit}`Plan.Spends`: what a job results in and how many jobs it makes on its way.

Main results:

- Theorem {lit}`Batch.slicePlan_spends`: the job that answers a slice results in the lines of
  its queries, and how many jobs it makes.
- Theorem {lit}`Batch.slicePlan_yields`: the same without the number of jobs.
-/

namespace PhraseLedger

variable {α : Type}

namespace Plan

/-- Whether a job has the given result, and so have all jobs that it hands out theirs. -/
inductive Yields : Plan α → α → Prop
  | yield (result : α) : Yields (.yield result) result
  | fork {jobs : List (Plan α)} {results : List α} {next : List (Option α) → Plan α} {result : α}
      (hjobs : List.Forall₂ Yields jobs results) (hnext : Yields (next (results.map some)) result) :
      Yields (.fork jobs next) result

theorem yields_yield_iff {result other : α} :
    (yield result).Yields other ↔ other = result := by
  constructor
  · rintro ⟨⟩
    rfl
  · rintro rfl
    exact .yield _

/-- A job that aborts its thread has no result. -/
theorem not_yields_abort (result : α) : ¬(abort : Plan α).Yields result := by
  rintro ⟨⟩

theorem yields_fork_iff {jobs : List (Plan α)} {next : List (Option α) → Plan α} {result : α} :
    (fork jobs next).Yields result ↔
      ∃ results, List.Forall₂ Yields jobs results ∧
        (next (results.map some)).Yields result := by
  constructor
  · rintro ⟨⟩
    exact ⟨_, ‹_›, ‹_›⟩
  · rintro ⟨results, hjobs, hnext⟩
    exact .fork hjobs hnext

end Plan

/-! ## What a job makes -/

/-- What holds between the entries of two lists holds in a weaker form that is only shown for
members of the first one. -/
theorem forall₂_imp_of_mem {β γ : Type} {strong weak : β → γ → Prop} {front : List β}
    {back : List γ} (h : List.Forall₂ strong front back)
    (himp : ∀ first ∈ front, ∀ second, strong first second → weak first second) :
    List.Forall₂ weak front back := by
  induction h with
  | nil => exact .nil
  | cons hfirst _ ih =>
      exact .cons (himp _ List.mem_cons_self _ hfirst)
        (ih fun first hmem => himp first (List.mem_cons_of_mem _ hmem))

/-- A list is settled by what holds between its entries and those of another one, if each entry
is. -/
theorem forall₂_unique {β γ : Type} {settles : β → γ → Prop} {front : List β}
    {back other : List γ} (h : List.Forall₂ settles front back)
    (hother : List.Forall₂ settles front other)
    (hunique : ∀ first ∈ front, ∀ {one two}, settles first one → settles first two →
      two = one) : other = back := by
  induction h generalizing other with
  | nil => exact List.forall₂_nil_left_iff.mp hother
  | cons hfirst _ ih =>
      rcases List.forall₂_cons_left_iff.mp hother with ⟨value, rest, hvalue, hrest, rfl⟩
      rw [hunique _ List.mem_cons_self hfirst hvalue,
        ih hrest fun first hmem => hunique first (List.mem_cons_of_mem _ hmem)]

namespace Plan

/-- What holds of a job if it holds of the jobs that it hands out, and of how it goes on with
any results, holds of every job. -/
theorem induction_on {holds : Plan α → Prop} (plan : Plan α)
    (hyield : ∀ result, holds (.yield result)) (habort : holds .abort)
    (hfork : ∀ jobs next, (∀ job ∈ jobs, holds job) → (∀ results, holds (next results)) →
      holds (.fork jobs next)) : holds plan :=
  @Plan.rec α holds (fun jobs => ∀ job ∈ jobs, holds job) hyield habort hfork
    (fun _ hjob => absurd hjob List.not_mem_nil)
    (fun _ _ hfirst hrest => List.forall_mem_cons.mpr ⟨hfirst, hrest⟩) plan

/-- Whether a job has the given result and makes `count` jobs on its way, those that its jobs
make included. -/
inductive Spends : Plan α → α → Nat → Prop
  | yield (result : α) : Spends (.yield result) result 0
  | fork {jobs : List (Plan α)} {made : List (α × Nat)} {next : List (Option α) → Plan α}
      {result : α} {count : Nat}
      (hjobs : List.Forall₂ (fun (job : Plan α) (own : α × Nat) => Spends job own.1 own.2)
        jobs made)
      (hnext : Spends (next (made.map fun own => some own.1)) result count) :
      Spends (.fork jobs next) result ((made.map fun own => own.2 + 1).sum + count)

theorem spends_yield_iff {result other : α} {count : Nat} :
    (yield result).Spends other count ↔ other = result ∧ count = 0 := by
  constructor
  · rintro ⟨⟩
    exact ⟨rfl, rfl⟩
  · rintro ⟨rfl, rfl⟩
    exact .yield _

theorem spends_fork_iff {jobs : List (Plan α)} {next : List (Option α) → Plan α} {result : α}
    {count : Nat} :
    (fork jobs next).Spends result count ↔
      ∃ (made : List (α × Nat)) (later : Nat),
        List.Forall₂ (fun job own => job.Spends own.1 own.2) jobs made ∧
        (next (made.map fun own => some own.1)).Spends result later ∧
        count = (made.map fun own => own.2 + 1).sum + later := by
  constructor
  · rintro ⟨⟩
    exact ⟨_, _, ‹_›, ‹_›, rfl⟩
  · rintro ⟨made, later, hjobs, hnext, rfl⟩
    exact .fork hjobs hnext

/-- A job that makes a number of jobs has its result. -/
theorem Spends.yields {plan : Plan α} {result : α} {count : Nat} (h : plan.Spends result count) :
    plan.Yields result := by
  induction plan using induction_on generalizing result count with
  | hyield other =>
      rw [(spends_yield_iff.mp h).1]
      exact .yield other
  | habort => cases h
  | hfork jobs next hjobs hnext =>
      rcases spends_fork_iff.mp h with ⟨made, later, hmade, hlater, -⟩
      refine yields_fork_iff.mpr ⟨made.map Prod.fst, ?_, ?_⟩
      · rw [List.forall₂_map_right_iff]
        exact forall₂_imp_of_mem hmade fun job hjob own hown => hjobs job hjob hown
      · rw [List.map_map]
        exact hnext _ hlater

/-- A job has one result only. -/
theorem Yields.unique {plan : Plan α} {result other : α} (h : plan.Yields result)
    (hother : plan.Yields other) : other = result := by
  induction plan using induction_on generalizing result other with
  | hyield value => rw [yields_yield_iff.mp h, yields_yield_iff.mp hother]
  | habort => exact absurd h (not_yields_abort result)
  | hfork jobs next hjobs hnext =>
      rcases yields_fork_iff.mp h with ⟨results, hresults, hgoal⟩
      rcases yields_fork_iff.mp hother with ⟨others, hothers, hotherGoal⟩
      rw [forall₂_unique hresults hothers fun job hjob => hjobs job hjob] at hotherGoal
      exact hnext _ hgoal hotherGoal

end Plan

/-- The scan of a fragment makes no job. -/
theorem Query.scanPlan_spends (index : Index) (query : Query) {settings : Settings}
    {fragment : Span} (hfragment : fragment ∈ query.pieces settings) :
    (query.scanPlan index fragment).Spends (.found (query.matchesOf index fragment)) 0 := by
  rw [scanPlan, scanFragment, if_pos (Text.isBoundary_of_mem_fragments hfragment)]
  exact .yield _

namespace Batch

/-- The job of a slice makes one job for each fragment of a document that is cut, if there is
room for the fragments. -/
theorem slicePlan_spends (index : Index) {settings : Settings} {queries : List Query}
    (hfits : ∀ query ∈ queries, query.fits settings = true) (lines : Text) :
    (slicePlan index settings queries lines).Spends
      (.lines (.ok (lines ++ queries.flatMap (Query.line index))))
      (queries.map (Query.jobCount settings)).sum := by
  induction queries generalizing lines with
  | nil =>
      rw [List.flatMap_nil, List.append_nil]
      exact .yield _
  | cons query rest ih =>
      have hrest := ih fun other hother => hfits other (List.mem_cons_of_mem query hother)
      rw [slicePlan, List.flatMap_cons, ← List.append_assoc, Query.line, List.map_cons,
        List.sum_cons, Query.jobCount]
      split
      · rename_i hsplit
        have hjobs : List.Forall₂ (fun (job : Plan Product) own => job.Spends own.1 own.2)
            ((query.pieces settings).map (query.scanPlan index))
            ((query.pieces settings).map fun fragment =>
              (Product.found (query.matchesOf index fragment), 0)) := by
          rw [List.forall₂_map_left_iff, List.forall₂_map_right_iff, List.forall₂_same]
          exact fun fragment hfragment => query.scanPlan_spends index hfragment
        have hcount : (((query.pieces settings).map fun fragment =>
            (Product.found (query.matchesOf index fragment), 0)).map fun own =>
              own.2 + 1).sum = (query.pieces settings).length := by
          simp [Function.comp_def]
        have hfound : (((query.pieces settings).map fun fragment =>
            (Product.found (query.matchesOf index fragment), 0)).map fun own =>
              some own.1).map (·.bind Product.found?) =
            ((query.pieces settings).map (query.matchesOf index)).map some := by
          simp only [List.map_map]
          rfl
        have hwhole : ((query.pieces settings).map (query.matchesOf index)).flatten =
            index.matchesIn query.document 0 query.opIndex := by
          rw [← List.flatMap_def]
          exact Index.flatMap_fragments index query.opIndex query.document
            settings.fragmentWorkers
        rw [← hcount]
        simp only [Query.pieces?_of_isSplit hsplit, if_pos (hfits query List.mem_cons_self)]
        refine .fork hjobs ?_
        rw [hfound, Query.collectFrom_map_some]
        simp only [hwhole]
        exact hrest _
      · rw [Nat.zero_add]
        exact hrest _

/-- The job of a slice results in the lines of its queries, if there is room for what they
need. -/
theorem slicePlan_yields (index : Index) {settings : Settings} {queries : List Query}
    (hfits : ∀ query ∈ queries, query.fits settings = true) (lines : Text) :
    (slicePlan index settings queries lines).Yields
      (.lines (.ok (lines ++ queries.flatMap (Query.line index)))) :=
  (slicePlan_spends index hfits lines).yields

end Batch

end PhraseLedger
