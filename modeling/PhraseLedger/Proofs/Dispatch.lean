import PhraseLedger.Dispatch.Batch
import PhraseLedger.Dispatch.Workers
import PhraseLedger.Proofs.Cutting
import PhraseLedger.Proofs.Sinks

/-!
# Dispatched jobs

A job that ends in the same way on every pool ends in this way wherever it is run, so the
answers to queries depend neither on the crew nor on the settings.  The settings only
matter where they ask for more fragments of a document than there can be room for: then the
thread that cuts the document is aborted.

Main definitions:

- Definition {lit}`Job.Ends`: how a job ends on every pool.
- Definition {lit}`Query.fits`: whether there is room for what a query needs.
- Definition {lit}`Batch.delivery`: what the answer lines of a batch come to on a sink.

Main results:

- Theorem {lit}`Pool.fanOut_ends`: the results of jobs that are handed out.
- Theorem {lit}`Query.answer_eq_scan`: a query is answered as by one scan of its
  document, if there is room.
- Theorem {lit}`Batch.answerTo_eq_delivery`: how a batch ends, whoever runs its jobs.
- Theorem {lit}`Batch.answerTo_eq_lines`: a batch is answered line by line, in the order
  of its queries, exactly if there is room.
-/

namespace PhraseLedger

variable {σ α ι : Type}

namespace Job

/-- Whether a job ends in the given way on every pool: with a result, or with none because
it aborts its thread. -/
def Ends (job : Job σ α) (result? : Option α) : Prop :=
  ∀ pool, ∃ after, job pool = (result?, after)

end Job

namespace Pool

/-! ## Handing out jobs -/

theorem perform_of_ends {job : Job σ α} {result? : Option α} (hjob : Job.Ends job result?)
    (pool : Pool σ) : ∃ after, perform job pool = (result?, after) := by
  rcases hjob pool with ⟨after, hrun⟩
  exact ⟨after.giveBack, by rw [perform, hrun]⟩

theorem runInline_of_ends {job : Job σ α} {result? : Option α} (hjob : Job.Ends job result?)
    (pool : Pool σ) : ∃ after, runInline job pool = (result?, after) :=
  perform_of_ends hjob _

/-- A job that is offered to a crew is refused, or ends there. -/
theorem trySubmit_of_ends {job : Job σ α} {result? : Option α} (hjob : Job.Ends job result?)
    (crew : Crew σ) (pool : Pool σ) :
    ∃ after, trySubmit crew job pool = (.refused, after) ∨
      trySubmit crew job pool = (.accepted result?, after) := by
  rw [trySubmit]
  rcases crew.claim pool.workers with ⟨_ | slot, workers⟩
  · exact ⟨_, Or.inl rfl⟩
  · obtain ⟨after, hrun⟩ := perform_of_ends hjob
      { pool with workers := workers, dispatched := pool.dispatched + 1 }
    simp only [hrun]
    exact ⟨_, Or.inr rfl⟩

/-- A job that is offered to a crew, and run by the thread itself if it is handed back,
ends as it does, and it takes the thread with it at most if it aborts. -/
theorem submitOrRun_of_ends {job : Job σ α} {result? : Option α}
    (hjob : Job.Ends job result?) (crew : Crew σ) (pool : Pool σ) :
    ∃ after, submitOrRun crew job pool = (some result?, after) ∨
      result? = none ∧ submitOrRun crew job pool = (none, after) := by
  rw [submitOrRun]
  rcases trySubmit_of_ends hjob crew pool with ⟨offered, hrefused | haccepted⟩
  · rcases runInline_of_ends hjob offered with ⟨after, hrun⟩
    refine ⟨after, ?_⟩
    cases result? with
    | none => exact .inr ⟨rfl, by simp only [hrefused, hrun]⟩
    | some result => exact .inl (by simp only [hrefused, hrun])
  · exact ⟨offered, .inl (by rw [haccepted])⟩

/-- Jobs that are handed out have their results, in the order of the jobs, unless one of
them aborts the thread. -/
theorem fanOut_ends (crew : Crew σ) (items : List ι) {job : ι → Job σ α}
    {result? : ι → Option α} (hjobs : ∀ item ∈ items, Job.Ends (job item) (result? item))
    (pool : Pool σ) :
    ∃ after, fanOut crew (items.map job) pool = (some (items.map result?), after) ∨
      none ∈ items.map result? ∧ fanOut crew (items.map job) pool = (none, after) := by
  induction items generalizing pool with
  | nil => exact ⟨pool, .inl rfl⟩
  | cons item items ih =>
      have hjob := hjobs item List.mem_cons_self
      cases items with
      | nil =>
          rcases runInline_of_ends hjob pool.lend with ⟨after, hrun⟩
          refine ⟨after, ?_⟩
          simp only [List.map_cons, List.map_nil, fanOut, hrun]
          cases result? item with
          | none => exact .inr ⟨List.mem_cons_self, rfl⟩
          | some result => exact .inl rfl
      | cons next rest =>
          have hlater : ∀ other ∈ next :: rest, Job.Ends (job other) (result? other) :=
            fun other hother => hjobs other (List.mem_cons_of_mem item hother)
          rcases submitOrRun_of_ends hjob crew pool.lend with ⟨between, hrun | ⟨hnone, hrun⟩⟩
          · rcases ih hlater between with ⟨after, hrest | ⟨hnone, hrest⟩⟩ <;>
              rw [List.map_cons] at hrest
            · exact ⟨after, .inl (by simp only [List.map_cons, fanOut, hrun, hrest])⟩
            · exact ⟨after, .inr ⟨List.mem_cons_of_mem _ hnone,
                by simp only [List.map_cons, fanOut, hrun, hrest]⟩⟩
          · refine ⟨between, .inr ⟨?_, by simp only [List.map_cons, fanOut, hrun]⟩⟩
            rw [List.map_cons, hnone]
            exact List.mem_cons_self

/-- Jobs that abort no thread have their results, in the order of the jobs. -/
theorem fanOut_map (crew : Crew σ) (items : List ι) {job : ι → Job σ α}
    {result : ι → α} (hjobs : ∀ item ∈ items, Job.Ends (job item) (some (result item)))
    (pool : Pool σ) :
    ∃ after, fanOut crew (items.map job) pool =
      (some (items.map fun item => some (result item)), after) := by
  rcases fanOut_ends crew items hjobs pool with ⟨after, hfan | ⟨hnone, -⟩⟩
  · exact ⟨after, hfan⟩
  · simp at hnone

end Pool

namespace Query

/-! ## Answers to queries -/

theorem collectFrom_map_some (name : Nat → String) (i : Nat) (results : List α) :
    collectFrom name i (results.map some) = .ok results := by
  induction results generalizing i with
  | nil => rfl
  | cons result results ih =>
      rw [List.map_cons, collectFrom, ih]
      rfl

/-- Whether a query needs no fragments, or there is room for as many as the settings ask
for. -/
def fits (settings : Settings) (query : Query) : Bool :=
  !query.isSplit settings || Text.hasRoom settings.fragmentWorkers

/-- Settings that ask for as many fragments as there is room for suit every query. -/
theorem fits_of_hasRoom {settings : Settings}
    (hroom : Text.hasRoom settings.fragmentWorkers = true) (query : Query) :
    query.fits settings = true := by
  rw [fits, hroom, Bool.or_true]

/-- The fragments of a document that is cut. -/
def pieces (settings : Settings) (query : Query) : List Span :=
  query.document.fragments settings.fragmentWorkers

/-- A document is cut if there is room for its fragments. -/
theorem pieces?_of_isSplit {settings : Settings} {query : Query}
    (hsplit : query.isSplit settings = true) :
    query.pieces? settings =
      if query.fits settings then some (query.pieces settings) else none := by
  rw [pieces?, Text.fragments?, fits, hsplit]
  rfl

/-- What the scan of a fragment finds: the members that start in the fragment. -/
def matchesOf (index : Index) (query : Query) (fragment : Span) : List Match :=
  index.matchesFrom (query.document.drop fragment.start) fragment.length fragment.start
    query.opIndex

/-- The scan of a fragment never aborts. -/
theorem scanJob_ends (index : Index) (query : Query) {settings : Settings}
    {fragment : Span} (hfragment : fragment ∈ query.pieces settings) :
    Job.Ends (σ := σ) (query.scanJob index fragment)
      (some (query.matchesOf index fragment)) := by
  intro pool
  refine ⟨pool, ?_⟩
  rw [scanJob, scanFragment, if_pos (Text.isBoundary_of_mem_fragments hfragment),
    matchesOf]

/-- A query for which there is room is answered as by one scan of its document. -/
theorem exists_answer (crew : Crew σ) (index : Index) {settings : Settings} {query : Query}
    (hfits : query.fits settings = true) (pool : Pool σ) :
    ∃ after, query.answer crew index settings pool =
      (.ok (Match.distinct (index.matchesIn query.document 0 query.opIndex)), after) := by
  rw [answer]
  split
  · rename_i hsplit
    obtain ⟨after, hfan⟩ := Pool.fanOut_map crew (query.pieces settings)
      (fun _ hfragment => scanJob_ends index query hfragment) pool
    have hfound : ((query.pieces settings).map (query.matchesOf index)).flatten =
        index.matchesIn query.document 0 query.opIndex := by
      rw [← List.flatMap_def]
      exact Index.flatMap_fragments index query.opIndex query.document
        settings.fragmentWorkers
    have hsome : ((query.pieces settings).map fun fragment =>
        some (query.matchesOf index fragment)) =
        ((query.pieces settings).map (query.matchesOf index)).map some :=
      (List.map_map ..).symm
    exact ⟨after, by simp only [pieces?_of_isSplit hsplit, if_pos hfits, hfan, hsome,
      collectFrom_map_some, hfound]⟩
  · exact ⟨pool, rfl⟩

/-- A query for which there is no room aborts the thread before it makes any job. -/
theorem answer_of_not_fits (crew : Crew σ) (index : Index) {settings : Settings} {query : Query}
    (hfits : query.fits settings = false) (pool : Pool σ) :
    query.answer crew index settings pool = (.error .abort, pool) := by
  have hsplit : query.isSplit settings = true := by
    rw [fits, Bool.or_eq_false_iff] at hfits
    simpa using hfits.1
  rw [answer, if_pos hsplit, pieces?_of_isSplit hsplit, hfits]
  rfl

/-- The result of a query is the distinct matches of one scan of its document, whoever
scans its fragments and however many there are, if there is room for as many as the settings
ask for.  Otherwise the thread that wants to cut the document is aborted, and so nothing is
answered. -/
theorem answer_eq_scan (crew : Crew σ) (index : Index) (settings : Settings)
    (query : Query) (pool : Pool σ) :
    (query.answer crew index settings pool).1 =
      if query.fits settings then
        .ok (Match.distinct (index.matchesIn query.document 0 query.opIndex))
      else .error .abort := by
  cases hfits : query.fits settings with
  | true =>
      rcases exists_answer crew index hfits pool with ⟨after, hanswer⟩
      rw [hanswer]
      rfl
  | false =>
      rw [answer_of_not_fits crew index hfits]
      rfl

/-- Valid settings ask for `2 ^ 60` fragments of a short document. -/
theorem answer_aborts_without_room :
    let settings : Settings := ⟨1, 1, 2 ^ 60, 0⟩
    let index := Index.empty.add (Text.ofString "a") 0
    let query : Query := ⟨Text.ofString "a b", 1⟩
    settings.validate = .ok () ∧
      Match.distinct (index.matchesIn query.document 0 query.opIndex) =
        [⟨Text.ofString "a", 0⟩] ∧
      (query.answer Workers.crew index settings
        (.start (Workers.idle 1 Workers.prompt))).1 = .error .abort := by
  decide +kernel

/-- The answer line of a query by one scan of its document. -/
def line (index : Index) (query : Query) : Text :=
  Match.resultLine (Match.distinct (index.matchesIn query.document 0 query.opIndex))

/-- Indexes with the same members as of a query give the same answer line. -/
theorem line_congr {index other : Index} (query : Query)
    (hmembers : ∀ phrase, Text.IsPhrase phrase → phrase ≠ [] →
      index.memberAt phrase query.opIndex = other.memberAt phrase query.opIndex) :
    query.line index = query.line other := by
  rw [line, line, Index.matchesIn_of_memberAt index hmembers, Index.matchesIn_eq_runs]

end Query

namespace Batch

/-! ## Answers to batches -/

/-- The answer lines of queries that are answered one after the other; a query for which
there is no room aborts the thread. -/
theorem exists_answerLines (crew : Crew σ) (index : Index) (settings : Settings)
    (queries : List Query) (pool : Pool σ) :
    ∃ after, answerLines crew index settings queries pool =
      (if queries.all (Query.fits settings) then .ok (queries.flatMap (Query.line index))
        else .error .abort, after) := by
  induction queries generalizing pool with
  | nil => exact ⟨pool, rfl⟩
  | cons query queries ih =>
      rw [answerLines, List.all_cons]
      cases hfits : query.fits settings with
      | false =>
          rw [Query.answer_of_not_fits crew index hfits]
          exact ⟨pool, rfl⟩
      | true =>
          rcases Query.exists_answer crew index hfits pool with ⟨between, hanswer⟩
          rcases ih between with ⟨after, hrest⟩
          refine ⟨after, ?_⟩
          simp only [hanswer, hrest, Bool.true_and]
          cases queries.all (Query.fits settings) <;> rfl

/-- The lines of the queries of a slice, or nothing if there is no room for one of them. -/
def sliceText? (index : Index) (settings : Settings) (queries : List Query) : Option Text :=
  if queries.all (Query.fits settings) then some (queries.flatMap (Query.line index)) else none

/-- What the job of a slice results in. -/
def sliceResult? (index : Index) (settings : Settings) (queries : List Query) :
    Option (Except Error Text) :=
  (sliceText? index settings queries).map .ok

/-- A slice of queries for which there is room results in their lines. -/
theorem sliceResult?_of_fits (index : Index) {settings : Settings} {queries : List Query}
    (hfits : ∀ query ∈ queries, query.fits settings = true) :
    sliceResult? index settings queries = some (.ok (queries.flatMap (Query.line index))) := by
  rw [sliceResult?, sliceText?, if_pos (List.all_eq_true.mpr hfits), Option.map_some]

/-- The job of a slice ends with the lines of its queries, or it aborts its thread. -/
theorem sliceJob_ends (crew : Crew σ) (index : Index) (settings : Settings)
    (queries : List Query) :
    Job.Ends (sliceJob crew index settings queries) (sliceResult? index settings queries) := by
  intro pool
  rcases exists_answerLines crew index settings queries pool with ⟨after, hlines⟩
  refine ⟨after, ?_⟩
  simp only [sliceJob, hlines, sliceResult?, sliceText?]
  cases queries.all (Query.fits settings) <;> rfl

/-- The lines of all slices are written as if they were one text. -/
theorem writeFrom_map_ok (i : Nat) (texts : List Text) (sink : Sink) :
    writeFrom i (texts.map fun text => some (.ok text)) sink =
      ((sink.write texts.flatten).1.mapError (Error.io "writing query results"),
        (sink.write texts.flatten).2) := by
  induction texts generalizing i sink with
  | nil =>
      rw [List.flatten_nil, Sink.write_nil]
      rfl
  | cons text texts ih =>
      rw [List.map_cons, writeFrom, List.flatten_cons, Sink.write_append]
      rcases sink.write text with ⟨_ | _, written⟩
      · rfl
      · exact ih (i + 1) written

/-- The lines of all slices are sent to the sink as if they were one text. -/
theorem exists_deliver (texts : List Text) (sink : Sink) :
    ∃ context, deliver (texts.map fun text => some (.ok text)) sink =
      ((sink.send texts.flatten).1.mapError (Error.io context),
        (sink.send texts.flatten).2) := by
  rw [deliver, writeFrom_map_ok, Sink.send]
  rcases sink.write texts.flatten with ⟨_ | _, written⟩
  · exact ⟨_, rfl⟩
  · refine ⟨"flushing query results", ?_⟩
    simp only [Except.mapError]
    rcases written.flush with ⟨_ | _, after⟩ <;> rfl

/-- The pool after a batch. -/
def poolAfter (crew : Crew σ) (index : Index) (settings : Settings) (queries : List Query)
    (pool : Pool σ) : Pool σ :=
  match Slice.split queries settings.parallelism with
  | [] => pool
  | slices => (Pool.fanOut crew (slices.map (sliceJob crew index settings)) pool).2

/-- Whether the batch is answered or not, its jobs leave the pool as they do. -/
theorem pool_answerTo (crew : Crew σ) (index : Index) (settings : Settings)
    (queries : List Query) (pool : Pool σ) (sink : Sink) :
    (answerTo crew index settings queries pool sink).2.1 =
      poolAfter crew index settings queries pool := by
  rw [answerTo, poolAfter]
  cases Slice.split queries settings.parallelism with
  | nil => rfl
  | cons slice slices =>
      simp only [List.isEmpty_cons, Bool.false_eq_true, if_false]
      rcases Pool.fanOut crew _ pool with ⟨_ | results, after⟩
      · rfl
      · simp only
        rcases deliver results sink with ⟨_ | _, written⟩ <;> rfl

/-- What the answer lines of a batch come to on a sink. -/
def delivery (index : Index) (settings : Settings) (queries : List Query) (sink : Sink) :
    Except Error Unit × Sink :=
  match Slice.split queries settings.parallelism with
  | [] => (.ok (), sink)
  | slices =>
    deliver (slices.map fun slice => some (.ok (slice.flatMap (Query.line index)))) sink

/-- The slices of a batch hold its queries. -/
theorem fits_of_mem_split {settings : Settings} {queries slice : List Query}
    (hfits : ∀ query ∈ queries, query.fits settings = true)
    (hslice : slice ∈ Slice.split queries settings.parallelism) :
    ∀ query ∈ slice, query.fits settings = true :=
  fun query hquery => hfits query (Slice.mem_of_mem_split hslice hquery)

/-- Whoever runs the jobs of a batch, its answer lines are delivered to the sink. -/
theorem answerTo_eq_delivery (crew : Crew σ) (index : Index) {settings : Settings}
    {queries : List Query} (hfits : ∀ query ∈ queries, query.fits settings = true)
    (pool : Pool σ) (sink : Sink) :
    answerTo crew index settings queries pool sink =
      ((delivery index settings queries sink).1.mapError Failure.error,
        poolAfter crew index settings queries pool, (delivery index settings queries sink).2) := by
  have hslices : ∀ slice ∈ Slice.split queries settings.parallelism,
      ∀ query ∈ slice, query.fits settings = true :=
    fun _ hslice => fits_of_mem_split hfits hslice
  rw [answerTo, poolAfter, delivery]
  generalize Slice.split queries settings.parallelism = slices at hslices
  cases slices with
  | nil => rfl
  | cons slice slices =>
      obtain ⟨after, hfan⟩ := Pool.fanOut_map crew (slice :: slices)
        (fun slice hslice => sliceResult?_of_fits index (hslices slice hslice) ▸
          sliceJob_ends crew index settings slice) pool
      simp only [List.isEmpty_cons, Bool.false_eq_true, if_false, hfan]
      rcases deliver _ sink with ⟨_ | _, written⟩ <;> rfl

/-- The lines of a batch are sent to the sink, unless the batch is empty. -/
theorem exists_delivery (index : Index) {settings : Settings}
    (hparallelism : 1 ≤ settings.parallelism) (queries : List Query) (sink : Sink) :
    ∃ context, delivery index settings queries sink =
      if queries = [] then (.ok (), sink)
      else
        ((sink.send (queries.flatMap (Query.line index))).1.mapError (Error.io context),
          (sink.send (queries.flatMap (Query.line index))).2) := by
  have hflatten := Slice.flatten_split queries hparallelism
  rw [delivery]
  cases hslices : Slice.split queries settings.parallelism with
  | nil =>
      -- The slices make up the batch, so without slices there are no queries to answer.
      rw [hslices, List.flatten_nil] at hflatten
      exact ⟨"", by rw [if_pos hflatten.symm]⟩
  | cons slice slices =>
      have hqueries : queries ≠ [] := by
        rintro rfl
        simp [Slice.split, Slice.sizes, Slice.takeEach] at hslices
      rw [hslices] at hflatten
      have htexts : ((slice :: slices).map fun slice =>
          some (Except.ok (slice.flatMap (Query.line index)))) =
          ((slice :: slices).map (List.flatMap (Query.line index))).map fun text =>
            (some (.ok text) : Option (Except Error Text)) := by
        rw [List.map_map]
        rfl
      have hlines : ((slice :: slices).map (List.flatMap (Query.line index))).flatten =
          queries.flatMap (Query.line index) := by
        rw [← hflatten, ← List.flatMap_def, ← List.flatMap_id,
          List.flatMap_assoc]
        rfl
      rcases exists_deliver ((slice :: slices).map (List.flatMap (Query.line index))) sink with
        ⟨context, hdeliver⟩
      rw [hlines] at hdeliver
      refine ⟨context, ?_⟩
      rw [if_neg hqueries]
      simp only [htexts, hdeliver]

/-- A batch is answered by sending the lines of its queries to the sink, or by nothing if
it is empty. -/
theorem exists_answerTo_send (crew : Crew σ) (index : Index) {settings : Settings}
    (hparallelism : 1 ≤ settings.parallelism) {queries : List Query}
    (hfits : ∀ query ∈ queries, query.fits settings = true) (pool : Pool σ) (sink : Sink) :
    ∃ context, answerTo crew index settings queries pool sink =
      if queries = [] then (.ok (), poolAfter crew index settings queries pool, sink)
      else
        ((sink.send (queries.flatMap (Query.line index))).1.mapError
            fun source => .error (.io context source),
          poolAfter crew index settings queries pool,
          (sink.send (queries.flatMap (Query.line index))).2) := by
  rcases exists_delivery index hparallelism queries sink with ⟨context, hdelivery⟩
  refine ⟨context, ?_⟩
  rw [answerTo_eq_delivery crew index hfits, hdelivery]
  split
  · rfl
  · cases (sink.send (queries.flatMap (Query.line index))).1 <;> rfl

/-- A batch is answered with the lines of its queries. -/
theorem exists_answerTo (crew : Crew σ) (index : Index) {settings : Settings}
    (hparallelism : 1 ≤ settings.parallelism) {queries : List Query}
    (hfits : ∀ query ∈ queries, query.fits settings = true) (pool : Pool σ) (taken : Text) :
    ∃ after, answerTo crew index settings queries pool
        { Sink.unlimited with taken := taken } =
      (.ok (), after,
        { Sink.unlimited with taken := taken ++ queries.flatMap (Query.line index) }) := by
  rcases exists_answerTo_send crew index hparallelism hfits pool
    { Sink.unlimited with taken := taken } with ⟨context, hanswer⟩
  refine ⟨poolAfter crew index settings queries pool, hanswer.trans ?_⟩
  split
  · rename_i hqueries
    rw [hqueries, List.flatMap_nil, List.append_nil]
  · rw [Sink.send_unlimited]
    rfl

/-! ## Batches that fail -/

/-- If a slice has no lines, not all lines are written. -/
theorem writeFrom_ne_ok {texts : List (Option Text)} (hnone : none ∈ texts) (i : Nat)
    (sink : Sink) : (writeFrom i (texts.map (Option.map .ok)) sink).1 ≠ .ok () := by
  induction texts generalizing i sink with
  | nil => cases hnone
  | cons text? texts ih =>
      cases text? with
      | none => simp [writeFrom]
      | some text =>
          rw [List.map_cons, Option.map_some, writeFrom]
          rcases sink.write text with ⟨_ | _, written⟩
          · simp
          · exact ih (by simpa using hnone) (i + 1) written

/-- A batch with slices aborts the driver, or what its slices result in is delivered. -/
theorem exists_answerTo_deliver (crew : Crew σ) (index : Index) (settings : Settings)
    {queries : List Query} (hslices : Slice.split queries settings.parallelism ≠ [])
    (pool : Pool σ) (sink : Sink) :
    (answerTo crew index settings queries pool sink).1 = .error .abort ∨
      (answerTo crew index settings queries pool sink).1 =
        (deliver (((Slice.split queries settings.parallelism).map
          (sliceText? index settings)).map (Option.map .ok)) sink).1.mapError .error := by
  have hresults : (Slice.split queries settings.parallelism).map (sliceResult? index settings) =
      ((Slice.split queries settings.parallelism).map (sliceText? index settings)).map
        (Option.map .ok) := by
    rw [List.map_map]
    rfl
  rw [answerTo, if_neg (by simpa using hslices)]
  obtain ⟨after, hfan | ⟨-, hfan⟩⟩ := Pool.fanOut_ends crew
    (Slice.split queries settings.parallelism)
    (fun slice _ => sliceJob_ends crew index settings slice) pool
  · right
    simp only [hfan, hresults]
    rcases deliver _ sink with ⟨_ | _, written⟩ <;> rfl
  · left
    rw [hfan]

/-- A batch with a query for which there is no room is not answered. -/
theorem answerTo_ne_ok (crew : Crew σ) (index : Index) {settings : Settings}
    (hparallelism : 1 ≤ settings.parallelism) {queries : List Query} {query : Query}
    (hquery : query ∈ queries) (hfits : query.fits settings = false) (pool : Pool σ)
    (sink : Sink) : (answerTo crew index settings queries pool sink).1 ≠ .ok () := by
  -- The slice with the query has no lines.
  have hnone : none ∈ (Slice.split queries settings.parallelism).map
      (sliceText? index settings) := by
    rw [← Slice.flatten_split queries hparallelism] at hquery
    rcases List.mem_flatten.mp hquery with ⟨slice, hslice, hmem⟩
    refine List.mem_map.mpr ⟨slice, hslice, if_neg fun hall => ?_⟩
    rw [List.all_eq_true.mp hall query hmem] at hfits
    cases hfits
  have hslices : Slice.split queries settings.parallelism ≠ [] := by
    intro hempty
    rw [hempty] at hnone
    cases hnone
  intro hok
  rcases exists_answerTo_deliver crew index settings hslices pool sink with habort | hdeliver
  · rw [habort] at hok
    cases hok
  · have hwrite := writeFrom_ne_ok hnone 0 sink
    rw [hdeliver, deliver] at hok
    rcases hwritten : writeFrom 0 _ sink with ⟨_ | _, written⟩ <;> rw [hwritten] at hok hwrite
    · cases hok
    · exact hwrite rfl

/-- In a batch that is answered there is room for every query. -/
theorem fits_of_answerTo_eq_ok {crew : Crew σ} {index : Index} {settings : Settings}
    (hparallelism : 1 ≤ settings.parallelism) {queries : List Query} {pool : Pool σ}
    {sink : Sink} (hok : (answerTo crew index settings queries pool sink).1 = .ok ()) :
    ∀ query ∈ queries, query.fits settings = true := by
  intro query hquery
  by_contra hfits
  exact answerTo_ne_ok crew index hparallelism hquery (Bool.not_eq_true _ ▸ hfits) pool sink hok

/-- A batch is answered with one line for each query, in the order of the queries, and
each line lists the distinct matches of one scan of its document, in whatever state the
pool is, whoever runs the jobs and however many there are.  It is answered exactly if there is
room for the fragments of its documents. -/
theorem answerTo_eq_lines (crew : Crew σ) (index : Index) {settings : Settings}
    (hparallelism : 1 ≤ settings.parallelism) (queries : List Query) (pool : Pool σ)
    (taken : Text) :
    ((answerTo crew index settings queries pool
        { Sink.unlimited with taken := taken }).1 = .ok () ↔
      ∀ query ∈ queries, query.fits settings = true) ∧
    ((∀ query ∈ queries, query.fits settings = true) →
      (answerTo crew index settings queries pool
          { Sink.unlimited with taken := taken }).2.2 =
        { Sink.unlimited with
          taken := taken ++ (queries.map fun query => Match.resultLine
            (Match.distinct (index.matchesIn query.document 0 query.opIndex))).flatten }) := by
  refine ⟨⟨fits_of_answerTo_eq_ok hparallelism, ?_⟩, ?_⟩
  · intro hfits
    rcases exists_answerTo crew index hparallelism hfits pool taken with ⟨after, hlines⟩
    rw [hlines]
  · intro hfits
    rcases exists_answerTo crew index hparallelism hfits pool taken with ⟨after, hlines⟩
    rw [hlines, List.flatMap_def]
    rfl

/-- With one of two workers dead, three queries in two slices are answered in their
order. -/
theorem answerTo_eq_lines_dead_worker :
    let settings : Settings := ⟨2, 2, 2, 1⟩
    let index := Index.empty.add [97] 0
    let queries : List Query := [⟨[97, 32, 98], 0⟩, ⟨[98], 0⟩, ⟨[32, 97], 1⟩]
    let pool := Pool.start ((Workers.idle 2 Workers.prompt).bury 0)
    1 ≤ settings.parallelism ∧ (∀ query ∈ queries, query.fits settings = true) ∧
      (answerTo Workers.crew index settings queries pool Sink.unlimited).1 = .ok () ∧
      (answerTo Workers.crew index settings queries pool Sink.unlimited).2.2 =
        { Sink.unlimited with taken := [97, 10, 45, 49, 10, 97, 10] } := by
  intro settings index queries pool
  have hparallelism : 1 ≤ settings.parallelism := by decide
  have hfits : ∀ query ∈ queries, query.fits settings = true := by decide +kernel
  obtain ⟨hok, hsink⟩ :=
    answerTo_eq_lines Workers.crew index hparallelism queries pool []
  refine ⟨hparallelism, hfits, hok.mpr hfits, (hsink hfits).trans ?_⟩
  rfl

/-- Valid settings ask for `2 ^ 60` fragments of a short document, and the driver answers the
only slice itself. -/
theorem answerTo_aborts_without_room :
    let settings : Settings := ⟨1, 1, 2 ^ 60, 0⟩
    let index := Index.empty.add (Text.ofString "a") 0
    let queries : List Query := [⟨Text.ofString "a b", 1⟩]
    settings.validate = .ok () ∧
      queries.flatMap (Query.line index) = Text.ofString "a\n" ∧
      (answerTo Workers.crew index settings queries
        (.start (Workers.idle 1 Workers.prompt)) Sink.unlimited).1 = .error .abort := by
  decide +kernel

end Batch

end PhraseLedger
