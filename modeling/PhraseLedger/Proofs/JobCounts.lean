import PhraseLedger.Proofs.Barrier
import PhraseLedger.Proofs.Feeding
import PhraseLedger.Proofs.Labour

/-!
# How many jobs a session takes

A flush takes one job for each slice of its batch and one for each fragment of a document that
is cut.  A job is counted where it is run: with the workers, or with the thread that had it.  So
however many of them the workers take, the counters of a pool add up to a number that the calls
and three of the settings tell.

Main definitions:

- Definition {lit}`Deed.batches`: the queries that each flush among deeds answers.
- Definition {lit}`Settings.jobCount`: the number of jobs that batches take.

Main results:

- Theorem {lit}`Batch.jobCount_eq`: the number of jobs that a batch takes.
- Theorem {lit}`Session.jobs_performIn`: a call moves the counters on by the jobs of its batch,
  whatever steps the threads take.
- Theorem {lit}`Session.jobs_counted_once`: the counters after calls, steps and runs.
-/

namespace PhraseLedger

variable {σ α : Type}

/-! ## Batches -/

namespace Slice

theorem length_takeEach (sizes : List Nat) (items : List α) :
    (takeEach sizes items).length = sizes.length := by
  induction sizes generalizing items with
  | nil => rfl
  | cons size sizes ih => rw [takeEach, List.length_cons, ih, List.length_cons]

/-- A list is cut into as many slices as asked for, unless it has fewer items. -/
theorem length_split (items : List α) (parts : Nat) :
    (split items parts).length = min parts items.length := by
  rw [split, length_takeEach, sizes, List.length_map, List.length_range]

end Slice

/-- A batch takes one job for each slice, and those of its queries. -/
theorem Batch.jobCount_eq {settings : Settings} (hparallelism : 1 ≤ settings.parallelism)
    (queries : List Query) :
    jobCount settings queries =
      min settings.parallelism queries.length + (queries.map (Query.jobCount settings)).sum := by
  have hsum : ∀ slices : List (List Query),
      (slices.map fun slice => (slice.map (Query.jobCount settings)).sum + 1).sum =
        slices.length + (slices.flatten.map (Query.jobCount settings)).sum := by
    intro slices
    induction slices with
    | nil => rfl
    | cons slice slices ih =>
        rw [List.map_cons, List.sum_cons, ih, List.length_cons, List.flatten_cons,
          List.map_append, List.sum_append]
        omega
  rw [jobCount, hsum, Slice.length_split, Slice.flatten_split queries hparallelism]

/-- Number of jobs that batches take.  Every slice of a batch is one, and so is every fragment of
a document that is cut. -/
def Settings.jobCount (settings : Settings) (batches : List (List Query)) : Nat :=
  (batches.map fun queries => min settings.parallelism queries.length).sum +
    (batches.flatten.map fun query =>
      if 1 < settings.fragmentWorkers ∧ settings.splitThreshold ≤ query.document.length then
        (query.document.fragments settings.fragmentWorkers).length
      else 0).sum

theorem Query.jobCount_eq (settings : Settings) (query : Query) :
    query.jobCount settings =
      if 1 < settings.fragmentWorkers ∧ settings.splitThreshold ≤ query.document.length then
        (query.document.fragments settings.fragmentWorkers).length
      else 0 := by
  rw [jobCount, isSplit, pieces]
  simp only [Bool.and_eq_true, decide_eq_true_eq]

/-- Batches take what each of them takes. -/
theorem Settings.jobCount_cons {settings : Settings} (hparallelism : 1 ≤ settings.parallelism)
    (queries : List Query) (batches : List (List Query)) :
    settings.jobCount (queries :: batches) =
      Batch.jobCount settings queries + settings.jobCount batches := by
  have hquery : Query.jobCount settings = fun query => _ :=
    funext (Query.jobCount_eq settings)
  rw [Batch.jobCount_eq hparallelism, hquery, jobCount, jobCount, List.map_cons, List.sum_cons,
    List.flatten_cons, List.map_append, List.sum_append]
  omega

/-! ## Calls -/

/-- The queries that each flush among deeds answers, if `opIndex` commands were given in front of
them and the queries of `queue` are waiting. -/
def Deed.batches (opIndex : Nat) (queue : List Query) : List Deed → List (List Query)
  | [] => []
  | deed :: rest =>
    if deed.isFlush then queue :: batches (deed.opIndexAfter opIndex) [] rest
    else batches (deed.opIndexAfter opIndex) (queue ++ queries opIndex [deed]) rest

/-- The queries that each flush among the events answers in a new session. -/
def Event.batches (events : List Event) : List (List Query) :=
  Deed.batches 0 [] (deeds events)

namespace Session

/-- A call moves the counters on by the jobs of the batch that it answers, if it answers one. -/
theorem jobs_perform {session : Session σ} (h : session.Roomy) (crew : Crew σ) (call : Call) :
    (session.perform crew call).2.pool.jobs =
      session.pool.jobs + session.jobCount (call.deed session.phase) := by
  rw [perform_snd h]
  exact (after_advances crew session fun _ => h.fits).jobs

/-- What the batches of deeds take is what the first deed takes, and what is taken behind it. -/
theorem jobCount_batches_cons {session : Session σ} (h : session.Ready) (deed : Deed)
    (rest : List Deed) :
    session.settings.jobCount
        (Deed.batches session.opIndex session.pending.toList (deed :: rest)) =
      session.jobCount deed + session.settings.jobCount
        (Deed.batches (session.book deed).opIndex (session.book deed).pending.toList rest) := by
  rw [Deed.batches, Session.jobCount, book_opIndex, book_pending]
  split
  · exact Settings.jobCount_cons h.slices _ _
  · rw [Nat.zero_add]

/-- The counters after events, whoever runs the jobs and whatever the output does. -/
theorem jobs_meetAll {session : Session σ} (h : session.Roomy) (crew : Crew σ)
    (events : List Event) :
    (session.meetAll crew events).pool.jobs =
      session.pool.jobs + session.settings.jobCount
        (Deed.batches session.opIndex session.pending.toList
          (Call.deeds session.phase (events.filterMap Event.call?))) := by
  induction events generalizing session with
  | nil => rfl
  | cons event rest ih =>
      have hnext := ih (h.meet crew event)
      cases event with
      | limits room flushes => exact hnext
      | call call =>
          have hcalls : (Event.call call :: rest).filterMap Event.call? =
              call :: rest.filterMap Event.call? := rfl
          rw [meetAll, List.foldl_cons, ← meetAll, hnext, meet, jobs_perform h crew call,
            hcalls, Call.deeds, jobCount_batches_cons h.toReady, Nat.add_assoc, perform_snd h]
          simp only [after, book_settings, book_phase]

/-! ## Steps of the threads -/

/-- Whatever steps the threads take, a flush moves the counters on by the jobs of its batch. -/
theorem jobs_flushIn {session after : Session (List (Desk Product))} (h : session.Settled)
    {moves : List Move} {result : Except Failure Unit}
    (hflush : session.flushIn moves = some (result, after)) :
    after.pool.jobs =
      session.pool.jobs + Batch.jobCount session.settings session.pending.toList := by
  rcases Option.map_eq_some_iff.mp hflush with ⟨⟨ended, pool, sink⟩, hanswer, hafter⟩
  obtain ⟨rfl, rfl⟩ := Prod.mk.inj hafter
  rw [Batch.answerIn] at hanswer
  split at hanswer
  · rename_i hempty
    obtain ⟨-, rfl, -⟩ := Option.some.inj hanswer
    rw [Batch.jobCount, List.isEmpty_iff.mp hempty]
    rfl
  · rcases Option.bind_eq_some_iff.mp hanswer with ⟨shop, hrun, hdone⟩
    rcases Option.map_eq_some_iff.mp hdone with ⟨results, hresults, houtcome⟩
    obtain ⟨-, rfl, -⟩ := houtcome
    have hjobs : List.Forall₂ (fun (job : Plan Product) own => job.Spends own.1 own.2)
        ((Slice.split session.pending.toList session.settings.parallelism).map fun slice =>
          Batch.slicePlan session.index session.settings slice [])
        ((Slice.split session.pending.toList session.settings.parallelism).map fun slice =>
          (.lines (.ok ([] ++ slice.flatMap (Query.line session.index))),
            (slice.map (Query.jobCount session.settings)).sum)) := by
      rw [List.forall₂_map_left_iff, List.forall₂_map_right_iff, List.forall₂_same]
      exact fun slice hslice =>
        Batch.slicePlan_spends session.index (Batch.fits_of_mem_split h.roomy.fits hslice) []
    have hcount := Workshop.jobs_of_results? hjobs h.rest hrun hresults
    rw [List.map_map] at hcount
    exact hcount

/-- Whatever steps the threads take, a call moves the counters on by the jobs of the batch that it
answers, if it answers one. -/
theorem jobs_performIn {session after : Session (List (Desk Product))} (h : session.Settled)
    {moves : List Move} {call : Call} {result : Except Failure Unit}
    (hperform : session.performIn moves call = some (result, after)) :
    after.pool.jobs = session.pool.jobs + session.jobCount (call.deed session.phase) := by
  rw [performIn] at hperform
  split at hperform
  · rename_i hdeed
    rw [hdeed]
    exact jobs_flushIn h hperform
  · rename_i hdeed
    have hnext : Settled { session.nextLine with opIndex := session.opIndex + 1 } :=
      h.congr rfl rfl
    have hjobs := jobs_flushIn hnext hperform
    rw [hdeed]
    exact hjobs
  · have hafter : session.perform .absent call = (result, after) := Option.some.inj hperform
    have hjobs := jobs_perform h.roomy .absent call
    rw [hafter] at hjobs
    exact hjobs

/-- The counters after events, whatever steps the threads take. -/
theorem jobs_meetAllIn {session now : Session (List (Desk Product))} (h : session.Settled)
    {events : List (Event × List Move)} (hevents : session.meetAllIn events = some now) :
    now.pool.jobs =
      session.pool.jobs + session.settings.jobCount
        (Deed.batches session.opIndex session.pending.toList
          (Call.deeds session.phase ((events.map Prod.fst).filterMap Event.call?))) := by
  induction events generalizing session with
  | nil =>
      obtain rfl := Option.some.inj hevents
      rfl
  | cons event rest ih =>
      rw [meetAllIn, List.foldlM_cons] at hevents
      rcases Option.bind_eq_some_iff.mp hevents with ⟨next, hmeet, hrest⟩
      rcases event with ⟨call | ⟨room, flushes⟩, moves⟩
      · rcases Option.map_eq_some_iff.mp hmeet with ⟨⟨result, after⟩, hperform, rfl⟩
        rcases performIn_eq_perform h hperform .absent with ⟨-, hbook, hnext⟩
        have hcalls : ((((Event.call call, moves) :: rest).map Prod.fst).filterMap Event.call?) =
            call :: (rest.map Prod.fst).filterMap Event.call? := rfl
        rw [ih hnext hrest, jobs_performIn h hperform, hcalls, Call.deeds,
          jobCount_batches_cons h.roomy.toReady, Nat.add_assoc, hbook, perform_snd h.roomy]
        simp only [Session.after, book_settings, book_phase]
      · obtain rfl := Option.some.inj hmeet
        have hnext : Settled
            { session with sink := { session.sink with room := room, flushesLeft := flushes } } :=
          h.congr rfl rfl
        have hjobs := ih hnext hrest
        exact hjobs

/-! ## Runs -/

/-- A line never comes to a flush that no line asked for. -/
theorem deed_ofLine_ne_flush (line : Text) (phase : Phase) :
    (Call.ofLine line).deed phase ≠ .flush := by
  intro hflush
  cases Call.eq_flush_of_deed hflush

/-- The lines that a run takes are counted, whether the last of them fails or not. -/
theorem performAll_of_taken {session after : Session σ} (h : session.Ready) (crew : Crew σ)
    {lines : List Text} {result : Except Failure Unit}
    (hrun : session.consumeAll crew lines = (result, after)) :
    ∃ count, after.lineNumber = session.lineNumber + count ∧
      after = (session.performAll crew ((lines.take count).map Call.ofLine)).2 := by
  induction lines generalizing session with
  | nil =>
      obtain ⟨-, rfl⟩ := Prod.mk.inj hrun
      exact ⟨0, rfl, rfl⟩
  | cons line rest ih =>
      rw [consumeAll] at hrun
      by_cases hutf8 : line.isUtf8 = true
      · rw [consumeRaw_of_isUtf8 hutf8] at hrun
        have hready := h.perform crew (.ofLine line)
        have hnumber : (session.perform crew (.ofLine line)).2.lineNumber =
            session.lineNumber + 1 := by
          rcases perform_keeps h crew (.ofLine line) with
            ⟨pool, sink, tally, timing, hafter, -⟩
          rw [hafter]
          exact book_lineNumber session (deed_ofLine_ne_flush line session.phase)
        rcases hline : session.perform crew (.ofLine line) with ⟨_ | _, next⟩
        · rw [hline] at hrun hnumber
          obtain ⟨-, rfl⟩ := Prod.mk.inj hrun
          refine ⟨1, hnumber, ?_⟩
          rw [List.take_succ_cons, List.take_zero, List.map_cons, performAll, hline]
          rfl
        · rw [hline] at hrun hnumber hready
          rcases ih hready hrun with ⟨count, hcount, hafter⟩
          refine ⟨count + 1, ?_, ?_⟩
          · rw [hcount, hnumber]
            omega
          · rw [List.take_succ_cons, List.map_cons, performAll, hline]
            exact hafter
      · rw [consumeRaw, if_neg hutf8] at hrun
        obtain ⟨-, rfl⟩ := Prod.mk.inj hrun
        exact ⟨0, rfl, rfl⟩

/-- The counters at the beginning of a session. -/
theorem jobs_start {settings : Settings} {workers : σ} {sink : Sink} {session : Session σ}
    (hstart : Session.start settings (.start workers) sink = .ok session)
    (hroom : Text.hasRoom settings.fragmentWorkers = true) (crew : Crew σ) (events : List Event) :
    (session.meetAll crew events).pool.jobs = settings.jobCount (Event.batches events) := by
  rw [jobs_meetAll (roomy_start hstart hroom), (start_eq_ok hstart).2]
  exact Nat.zero_add _

/-- Whoever runs the jobs, in whatever order the threads take their steps and whatever the output
does, if there is room for the fragments of all documents: the jobs that workers took and those
that were run by the threads that had them are together as many as the flushes take, one for each
slice and one for each fragment of a document that is cut.  So it is after any calls, after a run
that fails at some line, and in the report of a run that does not. -/
theorem jobs_counted_once {settings : Settings}
    (hroom : Text.hasRoom settings.fragmentWorkers = true) {sink : Sink} :
    (∀ (σ : Type) (workers : σ) (session : Session σ),
      Session.start settings (.start workers) sink = .ok session → ∀ crew : Crew σ,
        (∀ events, (session.meetAll crew events).pool.jobs =
          settings.jobCount (Event.batches events)) ∧
        ∀ input : Text,
          (∀ result after, session.consumeAll crew input.lines = (result, after) →
            after.pool.jobs = settings.jobCount (Event.batches
              ((input.lines.take after.lineNumber).map fun line => .call (.ofLine line)))) ∧
          ∀ summary, (session.run crew input).result = .ok summary →
            summary.jobs = settings.jobCount (Event.batches
              (input.lines.map fun line => .call (.ofLine line)))) ∧
    ∀ (desks : List (Desk Product)) (session : Session (List (Desk Product))),
      Session.start settings (.start desks) sink = .ok session →
      (∀ desk ∈ desks, desk.queue = []) →
      ∀ (events : List (Event × List Move)) (now : Session (List (Desk Product))),
        session.meetAllIn events = some now →
          now.pool.jobs = settings.jobCount (Event.batches (events.map Prod.fst)) := by
  refine ⟨?_, ?_⟩
  · intro σ workers session hstart crew
    have hcalls : ∀ lines : List Text,
        (session.performAll crew (lines.map Call.ofLine)).2.pool.jobs =
          settings.jobCount (Event.batches (lines.map fun line => .call (.ofLine line))) := by
      intro lines
      rw [← meetAll_map_call, jobs_start hstart hroom, List.map_map]
      rfl
    refine ⟨jobs_start hstart hroom crew, fun input => ⟨?_, ?_⟩⟩
    · intro result after hrun
      rcases performAll_of_taken (ready_start hstart) crew hrun with ⟨count, hcount, hafter⟩
      have hnumber : session.lineNumber = 0 := by rw [(start_eq_ok hstart).2]
      rw [hnumber, Nat.zero_add] at hcount
      rw [hcount, hafter]
      exact hcalls _
    · intro summary haccepted
      rcases exists_of_run_eq_ok haccepted with ⟨after, hrun, hend⟩
      rw [run_of_consumeAll hrun hend] at haccepted
      obtain rfl := Except.ok.inj haccepted
      rw [← hcalls, performAll_of_consumeAll hrun]
      rfl
  · intro desks session hstart hdesks events now hevents
    rw [jobs_meetAllIn (settled_start hstart hroom hdesks) hevents, (start_eq_ok hstart).2]
    exact Nat.zero_add _

/-- Two queries are answered, for which the output has no room: once by a crew of two, and once by
the driver and two workers step by step.  Another run fails at its line `Z`, and the last one
comes to its end. -/
theorem jobs_counted_once_failing_output :
    let text := Text.ofString
    let on : Nat → Move := fun thread => ⟨thread, none⟩
    let moves : List Move :=
      [on 0, ⟨0, some 0⟩, on 0, on 1, on 0, on 1, on 0, on 1, on 1, on 1, on 0, ⟨0, some 1⟩,
        on 1, on 0, on 2, on 0, on 0, on 1, on 1, on 0, on 2, on 1, on 2, on 0, on 0, on 0,
        on 2, on 0, on 0, on 0, on 0]
    let events : List (Event × List Move) :=
      [(.call (.consumeLine (text "a b")), []), (.call (.consumeLine (text "S")), []),
        (.call (.consumeLine (text "Q a b")), []), (.call (.consumeLine (text "Q b a b")), []),
        (.limits (some 0) none, []), (.call (.applyLine (text "F")), moves)]
    let broken := text "a b\nS\nQ a b\nQ b a b\nF\nQ a\nZ\nF\n"
    let whole := text "a b\nS\nQ a b\nQ b a b\nF\nQ a\nF\n"
    ∃ (session failed : Session Workers) (first now : Session (List (Desk Product)))
        (result : Except Failure Unit) (summary : Summary),
      Text.hasRoom 2 = true ∧
        Session.start ⟨2, 2, 2, 1⟩ (.start (Workers.idle 2 Workers.prompt)) .unlimited =
          .ok session ∧
        (session.meetAll Workers.crew (events.map Prod.fst)).pool.jobs = 5 ∧
        session.consumeAll Workers.crew broken.lines = (result, failed) ∧
        result.isOk = false ∧ failed.lineNumber = 7 ∧ failed.pool.jobs = 5 ∧
        (session.run Workers.crew whole).result = .ok summary ∧ summary.jobs = 7 ∧
        Session.start ⟨2, 2, 2, 1⟩ (.start [.idle, .idle]) .unlimited = .ok first ∧
        first.meetAllIn events = some now ∧ now.pool.jobs = 5 := by
  intro text on moves events broken whole
  let settings : Settings := ⟨2, 2, 2, 1⟩
  let session : Session Workers :=
    ⟨settings, .empty, .start (Workers.idle 2 Workers.prompt), .unlimited, #[], 0, 0, .bulkLoad,
      .zero, .new⟩
  let first : Session (List (Desk Product)) :=
    ⟨settings, .empty, .start [.idle, .idle], .unlimited, #[], 0, 0, .bulkLoad, .zero, .new⟩
  have hstart : Session.start settings (.start (Workers.idle 2 Workers.prompt)) .unlimited =
      .ok session := rfl
  have hfirst : Session.start settings (.start [.idle, .idle]) .unlimited = .ok first := rfl
  have hdesks : ∀ desk ∈ [Desk.idle, Desk.idle], desk.queue = ([] : List (Task Product)) := by
    simp [Desk.idle]
  have hsome : (first.meetAllIn events).isSome = true := by decide +kernel
  have hbroken : (session.consumeAll Workers.crew broken.lines).1.isOk = false ∧
      (session.consumeAll Workers.crew broken.lines).2.lineNumber = 7 := by
    decide +kernel
  obtain ⟨summary, haccepted⟩ : ∃ summary, (session.run Workers.crew whole).result =
      .ok summary := exists_of_isOk (by decide +kernel)
  have hroom : Text.hasRoom settings.fragmentWorkers = true := by decide
  have hcounts : settings.jobCount (Event.batches (events.map Prod.fst)) = 5 ∧
      settings.jobCount (Event.batches
        ((broken.lines.take 7).map fun line => .call (.ofLine line))) = 5 ∧
      settings.jobCount (Event.batches
        (whole.lines.map fun line => .call (.ofLine line))) = 7 := by
    decide +kernel
  rcases Option.isSome_iff_exists.mp hsome with ⟨now, hevents⟩
  rcases hrun : session.consumeAll Workers.crew broken.lines with ⟨result, failed⟩
  rw [hrun] at hbroken
  rcases hbroken with ⟨hresult, hnumber⟩
  rcases hcounts with ⟨hofEvents, hofBroken, hofWhole⟩
  rcases (jobs_counted_once hroom).1 _ _ _ hstart Workers.crew with ⟨hcalls, hruns⟩
  have hfailed := (hruns broken).1 result failed hrun
  have hsummary := (hruns whole).2 _ haccepted
  have hsteps := (jobs_counted_once hroom).2 _ _ hfirst hdesks events now hevents
  rw [hnumber, hofBroken] at hfailed
  rw [hofWhole] at hsummary
  rw [hofEvents] at hsteps
  exact ⟨session, failed, first, now, result, summary, hroom, hstart, (hcalls _).trans hofEvents, hrun,
    hresult, hnumber, hfailed, haccepted, hsummary, hfirst, hevents, hsteps⟩

end Session

end PhraseLedger
