import PhraseLedger.Dispatch.Batch

/-!
# Crews that serve alike

A thread that hands out jobs learns of a crew only which slots it reserves.  So two crews that
reserve the same slots see the same jobs and lead to the same results, and what they keep true of
their pools while a job is claimed, completed or aborted holds behind all jobs that are handed
out, however they are nested.

Main definitions:

- Definition {lit}`Crew.Agrees`: what two crews keep true of two pools.
- Definition {lit}`Job.Agrees`: what a job keeps true of two pools.

Main results:

- Theorem {lit}`Pool.submitOrRun_agrees`: a job that is handed over.
- Theorem {lit}`Pool.fanOut_agrees`: jobs that are handed out.
- Theorem {lit}`Batch.sliceJob_agrees`: the job of a slice.
-/

namespace PhraseLedger

variable {σ τ α : Type}

/-- Whether two crews reserve the same slots and keep something true of two pools.  What is kept
may depend on the slots whose jobs are under way, but neither on the loans nor on the jobs that
were run by the threads that had them, as long as these change alike. -/
structure Crew.Agrees (crew : Crew σ) (other : Crew τ)
    (holds : List Nat → Pool σ → Pool τ → Prop) : Prop where
  books : ∀ {busy pool copy} (borrowed inline : Nat → Nat), holds busy pool copy →
    holds busy
      { pool with borrowed := borrowed pool.borrowed, inline := inline pool.inline }
      { copy with borrowed := borrowed copy.borrowed, inline := inline copy.inline }
  refuse : ∀ {busy pool copy workers}, holds busy pool copy →
    crew.claim pool.workers = (none, workers) →
      ∃ others, other.claim copy.workers = (none, others) ∧
        holds busy { pool with workers := workers } { copy with workers := others }
  accept : ∀ {busy pool copy workers slot}, holds busy pool copy →
    crew.claim pool.workers = (some slot, workers) →
      ∃ others, other.claim copy.workers = (some slot, others) ∧
        holds (slot :: busy)
          { pool with workers := workers, dispatched := pool.dispatched + 1 }
          { copy with workers := others, dispatched := copy.dispatched + 1 }
  complete : ∀ {busy pool copy slot}, holds (slot :: busy) pool copy →
    holds busy { pool with workers := crew.complete slot pool.workers }
      { copy with workers := other.complete slot copy.workers }
  bury : ∀ {busy pool copy slot}, holds (slot :: busy) pool copy →
    holds busy { pool with workers := crew.bury slot pool.workers }
      { copy with workers := other.bury slot copy.workers }

/-- Whether a job has the same result on two pools and keeps something true of them. -/
def Job.Agrees (job : Job σ α) (twin : Job τ α) (holds : List Nat → Pool σ → Pool τ → Prop) :
    Prop :=
  ∀ busy pool copy, holds busy pool copy →
    ∃ result after later, job pool = (result, after) ∧ twin copy = (result, later) ∧
      holds busy after later

section

variable {crew : Crew σ} {other : Crew τ} {holds : List Nat → Pool σ → Pool τ → Prop}
  {busy : List Nat} {pool : Pool σ} {copy : Pool τ}

/-! ## Handing out jobs -/

namespace Pool

/-- A job whose claim takes a slot is run there. -/
theorem trySubmit_of_claim {job : Job σ α} {slot : Nat} {workers : σ} {result : Option α}
    {after : Pool σ} (hclaim : crew.claim pool.workers = (some slot, workers))
    (hrun : perform job { pool with workers := workers, dispatched := pool.dispatched + 1 } =
      (result, after)) :
    trySubmit crew job pool = (.accepted result, { after with
      workers :=
        (if result.isSome then crew.complete slot else crew.bury slot) after.workers }) := by
  simp only [trySubmit, hclaim, hrun]

theorem lend_agrees (hcrew : crew.Agrees other holds) (h : holds busy pool copy) :
    holds busy pool.lend copy.lend :=
  hcrew.books (· + 1) id h

theorem giveBack_agrees (hcrew : crew.Agrees other holds) (h : holds busy pool copy) :
    holds busy pool.giveBack copy.giveBack :=
  hcrew.books (· - 1) id h

theorem perform_agrees (hcrew : crew.Agrees other holds) {job : Job σ α} {twin : Job τ α}
    (hjob : Job.Agrees job twin holds) (h : holds busy pool copy) :
    ∃ result after later, perform job pool = (result, after) ∧
      perform twin copy = (result, later) ∧ holds busy after later := by
  rcases hjob busy pool copy h with ⟨result, after, later, hrun, htwin, hafter⟩
  refine ⟨result, after.giveBack, later.giveBack, ?_, ?_, giveBack_agrees hcrew hafter⟩
  · rw [perform, hrun]
  · rw [perform, htwin]

theorem runInline_agrees (hcrew : crew.Agrees other holds) {job : Job σ α} {twin : Job τ α}
    (hjob : Job.Agrees job twin holds) (h : holds busy pool copy) :
    ∃ result after later, runInline job pool = (result, after) ∧
      runInline twin copy = (result, later) ∧ holds busy after later :=
  perform_agrees hcrew hjob (hcrew.books id (· + 1) h)

/-- Jobs that are offered to two crews are refused by both or have the same result with both. -/
theorem trySubmit_agrees (hcrew : crew.Agrees other holds) {job : Job σ α} {twin : Job τ α}
    (hjob : Job.Agrees job twin holds) (h : holds busy pool copy) :
    ∃ fate after later, trySubmit crew job pool = (fate, after) ∧
      trySubmit other twin copy = (fate, later) ∧ holds busy after later := by
  rcases hclaim : crew.claim pool.workers with ⟨_ | slot, workers⟩
  · rcases hcrew.refuse h hclaim with ⟨others, htwin, hafter⟩
    refine ⟨.refused, _, _, ?_, ?_, hafter⟩
    · rw [trySubmit, hclaim]
    · rw [trySubmit, htwin]
  · rcases hcrew.accept h hclaim with ⟨others, hcopy, hclaimed⟩
    rcases perform_agrees hcrew hjob hclaimed with ⟨result, after, later, hrun, htwin, hafter⟩
    refine ⟨.accepted result, _, _, trySubmit_of_claim hclaim hrun,
      trySubmit_of_claim hcopy htwin, ?_⟩
    cases result with
    | none => exact hcrew.bury hafter
    | some result => exact hcrew.complete hafter

/-- Jobs that are handed over have the same result, whoever runs them. -/
theorem submitOrRun_agrees (hcrew : crew.Agrees other holds) {job : Job σ α} {twin : Job τ α}
    (hjob : Job.Agrees job twin holds) (h : holds busy pool copy) :
    ∃ result after later, submitOrRun crew job pool = (result, after) ∧
      submitOrRun other twin copy = (result, later) ∧ holds busy after later := by
  rcases trySubmit_agrees hcrew hjob h with ⟨result | _, offered, twinOffered, hoffer, htwin, hnext⟩
  · exact ⟨some result, offered, twinOffered, by rw [submitOrRun, hoffer],
      by rw [submitOrRun, htwin], hnext⟩
  · rcases runInline_agrees hcrew hjob hnext with ⟨_ | result, after, later, hrun, hlater, hafter⟩
    · exact ⟨none, after, later, by simp only [submitOrRun, hoffer, hrun],
        by simp only [submitOrRun, htwin, hlater], hafter⟩
    · exact ⟨some (some result), after, later, by simp only [submitOrRun, hoffer, hrun],
        by simp only [submitOrRun, htwin, hlater], hafter⟩

/-- Jobs that are handed out have the same results. -/
theorem fanOut_agrees {ι : Type} (hcrew : crew.Agrees other holds) {job : ι → Job σ α}
    {twin : ι → Job τ α} {items : List ι}
    (hjobs : ∀ item ∈ items, Job.Agrees (job item) (twin item) holds)
    (h : holds busy pool copy) :
    ∃ results after later, fanOut crew (items.map job) pool = (results, after) ∧
      fanOut other (items.map twin) copy = (results, later) ∧ holds busy after later := by
  induction items generalizing pool copy with
  | nil => exact ⟨some [], pool, copy, rfl, rfl, h⟩
  | cons item items ih =>
      have hjob := hjobs item List.mem_cons_self
      have hlent := lend_agrees hcrew h
      cases items with
      | nil =>
          rcases runInline_agrees hcrew hjob hlent with
            ⟨_ | result, after, later, hrun, htwin, hafter⟩
          · exact ⟨none, after, later, by simp only [List.map_cons, List.map_nil, fanOut, hrun],
              by simp only [List.map_cons, List.map_nil, fanOut, htwin], hafter⟩
          · exact ⟨some [some result], after, later,
              by simp only [List.map_cons, List.map_nil, fanOut, hrun],
              by simp only [List.map_cons, List.map_nil, fanOut, htwin], hafter⟩
      | cons next rest =>
          rcases submitOrRun_agrees hcrew hjob hlent with
            ⟨_ | result, between, twinBetween, hrun, htwin, hnext⟩
          · exact ⟨none, between, twinBetween, by simp only [List.map_cons, fanOut, hrun],
              by simp only [List.map_cons, fanOut, htwin], hnext⟩
          · rcases ih (fun item hitem => hjobs item (List.mem_cons_of_mem _ hitem)) hnext with
              ⟨_ | results, after, later, hrest, hlater, hafter⟩
            · rw [List.map_cons] at hrest hlater
              exact ⟨none, after, later, by simp only [List.map_cons, fanOut, hrun, hrest],
                by simp only [List.map_cons, fanOut, htwin, hlater], hafter⟩
            · rw [List.map_cons] at hrest hlater
              exact ⟨some (result :: results), after, later,
                by simp only [List.map_cons, fanOut, hrun, hrest],
                by simp only [List.map_cons, fanOut, htwin, hlater], hafter⟩

end Pool

/-! ## Batches -/

/-- A scan changes nothing. -/
theorem Query.scanJob_agrees (index : Index) (query : Query) (fragment : Span) :
    Job.Agrees (query.scanJob index fragment) (query.scanJob index fragment) holds :=
  fun _ _ _ h => ⟨_, _, _, rfl, rfl, h⟩

theorem Query.answer_agrees (hcrew : crew.Agrees other holds) (index : Index)
    (settings : Settings) (query : Query) (h : holds busy pool copy) :
    ∃ found after later, query.answer crew index settings pool = (found, after) ∧
      query.answer other index settings copy = (found, later) ∧ holds busy after later := by
  rw [answer, answer]
  split
  · cases query.pieces? settings with
    | none => exact ⟨_, pool, copy, rfl, rfl, h⟩
    | some pieces =>
        have hjobs : ∀ fragment ∈ pieces, Job.Agrees (query.scanJob index fragment)
            (query.scanJob index fragment) holds :=
          fun fragment _ => query.scanJob_agrees index fragment
        rcases Pool.fanOut_agrees hcrew hjobs h with
          ⟨_ | results, after, later, hfan, htwin, hafter⟩ <;>
          simp only [hfan, htwin]
        · exact ⟨_, after, later, rfl, rfl, hafter⟩
        · cases collectFrom scanName 0 results <;> exact ⟨_, after, later, rfl, rfl, hafter⟩
  · exact ⟨_, pool, copy, rfl, rfl, h⟩

namespace Batch

theorem answerLines_agrees (hcrew : crew.Agrees other holds) (index : Index)
    (settings : Settings) (queries : List Query) (h : holds busy pool copy) :
    ∃ lines after later, answerLines crew index settings queries pool = (lines, after) ∧
      answerLines other index settings queries copy = (lines, later) ∧
        holds busy after later := by
  induction queries generalizing pool copy with
  | nil => exact ⟨_, pool, copy, rfl, rfl, h⟩
  | cons query rest ih =>
      rcases query.answer_agrees hcrew index settings h with
        ⟨_ | found, between, twinBetween, hanswer, htwin, hnext⟩
      · exact ⟨_, between, twinBetween, by rw [answerLines, hanswer],
          by rw [answerLines, htwin], hnext⟩
      · rcases ih hnext with ⟨_ | lines, after, later, hrest, hlater, hafter⟩ <;>
          simp only [answerLines, hanswer, htwin, hrest, hlater] <;>
          exact ⟨_, after, later, rfl, rfl, hafter⟩

/-- The job of a slice has the same lines with both crews. -/
theorem sliceJob_agrees (hcrew : crew.Agrees other holds) (index : Index)
    (settings : Settings) (queries : List Query) :
    Job.Agrees (sliceJob crew index settings queries) (sliceJob other index settings queries)
      holds := by
  intro busy pool copy h
  rcases answerLines_agrees hcrew index settings queries h with
    ⟨(_ | _) | lines, after, later, hlines, htwin, hafter⟩ <;>
    simp only [sliceJob, hlines, htwin] <;>
    exact ⟨_, after, later, rfl, rfl, hafter⟩

end Batch

end

end PhraseLedger
