import PhraseLedger.Proofs.History
import PhraseLedger.Proofs.Workshop

/-!
# Flushes and the index

A flush returns only when every result of its jobs was received, and a job returns the index
before its result can be received.  So whatever the threads do meanwhile, and whether the
answers can be written or not, nobody borrows the index when a flush has returned, and the next
addition or removal is not refused.

Main definitions:

- Definition {lit}`Workshop.Accounts`: who borrows the index while a batch is answered.
- Definition {lit}`Session.performIn`: a call, of which a flush is carried out by given steps.
- Definition {lit}`Session.meetAllIn`: a session after calls and changes of its output.

Main results:

- Theorem {lit}`Batch.accounts_of_run`: every step of a batch keeps the accounts.
- Theorem {lit}`Batch.answerIn_eq_answerTo`: whatever steps the threads take, a batch ends as
  with a crew.
- Theorem {lit}`Session.flush_barrier`: no session is refused its index.
-/

namespace PhraseLedger

variable {σ α : Type}

/-- Whether no job waits for a worker. -/
def Pool.AtRest (pool : Pool (List (Desk α))) : Prop :=
  ∀ desk ∈ pool.workers, desk.queue = []

/-- What holds of a workshop in which a batch is answered, if the index was borrowed `base`
times before. -/
structure Workshop.Accounts (base : Nat) (shop : Workshop α) : Prop where
  /-- The index is borrowed by the jobs that have not returned it, and by nobody else. -/
  borrowed : shop.floor.pool.borrowed = base + shop.borrowers.card
  /-- The result of a job that borrows the index cannot be received. -/
  unsent : ∀ cell ∈ shop.borrowers, shop.floor.cells.cell? cell = some .new
  /-- When the driver has all the results it waited for, every result was received, no job
  borrows the index, no thread has work and none is left on a desk. -/
  done : ∀ results, shop.results? = some results →
    (∀ content ∈ shop.floor.cells.cells, content = .used) ∧ shop.borrowers = 0 ∧
      (∀ frames ∈ shop.threads.tail, frames = []) ∧ shop.floor.pool.AtRest

namespace Batch

/-! ## Batches -/

/-- What the slices of a batch result in. -/
def sliceLines (index : Index) (settings : Settings) (queries : List Query) : List Text :=
  (Slice.split queries settings.parallelism).map (List.flatMap (Query.line index))

/-- Whatever steps were taken, a workshop in which a batch is answered is sound. -/
theorem sound_of_run {index : Index} {settings : Settings} {queries : List Query}
    (hfits : ∀ query ∈ queries, query.fits settings = true)
    {pool : Pool (List (Desk Product))} (hpool : pool.AtRest) {moves : List Move}
    {shop : Workshop Product}
    (hrun : (opened index settings queries pool).run moves = some shop) :
    ∃ expected, Sound pool.borrowed
      ((sliceLines index settings queries).map fun text => some (.lines (.ok text))) expected
      shop.floor.books shop.pieces := by
  have hjobs : List.Forall₂ Plan.Yields
      ((Slice.split queries settings.parallelism).map fun slice =>
        slicePlan index settings slice [])
      ((sliceLines index settings queries).map fun text => .lines (.ok text)) := by
    rw [sliceLines, List.map_map, List.forall₂_map_left_iff, List.forall₂_map_right_iff,
      List.forall₂_same]
    exact fun slice hslice => slicePlan_yields index (fits_of_mem_split hfits hslice) []
  have hopened := Workshop.sound_opened hjobs hpool
  rw [List.map_map] at hopened
  exact Workshop.sound_run hopened hrun

/-- Every step of a batch keeps the accounts. -/
theorem accounts_of_run {index : Index} {settings : Settings} {queries : List Query}
    (hfits : ∀ query ∈ queries, query.fits settings = true)
    {pool : Pool (List (Desk Product))} (hpool : pool.AtRest) {moves : List Move}
    {shop : Workshop Product}
    (hrun : (opened index settings queries pool).run moves = some shop) :
    shop.Accounts pool.borrowed := by
  rcases sound_of_run hfits hpool hrun with ⟨expected, hsound⟩
  constructor
  · exact hsound.borrowed_eq
  · intro cell hcell
    rcases (Multiset.mem_filterMap _ _).mp hcell with ⟨piece, hpiece, hborrower⟩
    rw [Piece.borrower?] at hborrower
    split at hborrower
    · exact hsound.cell?_eq_new hpiece hborrower
    · cases hborrower
  · intro results hresults
    rcases Workshop.done_of_results? hsound hresults with
      ⟨-, hborrowers, -, hcells, hthreads, hdesks⟩
    exact ⟨hcells, hborrowers, hthreads, hdesks⟩

/-- A batch that was answered has left nobody with the index and no job on a desk. -/
theorem settled_of_answerIn {index : Index} {settings : Settings} {queries : List Query}
    (hfits : ∀ query ∈ queries, query.fits settings = true)
    {pool after : Pool (List (Desk Product))} (hpool : pool.AtRest) {moves : List Move}
    {sink written : Sink} {result : Except Failure Unit}
    (hanswer : answerIn moves index settings queries pool sink = some (result, after, written)) :
    after.borrowed = pool.borrowed ∧ after.AtRest := by
  rw [answerIn] at hanswer
  split at hanswer
  · obtain ⟨-, rfl, -⟩ := Option.some.inj hanswer
    exact ⟨rfl, hpool⟩
  · rcases Option.bind_eq_some_iff.mp hanswer with ⟨shop, hrun, hdone⟩
    rcases Option.map_eq_some_iff.mp hdone with ⟨results, hresults, houtcome⟩
    obtain ⟨-, rfl, -⟩ := houtcome
    rcases sound_of_run hfits hpool hrun with ⟨expected, hsound⟩
    rcases Workshop.done_of_results? hsound hresults with ⟨-, -, hborrowed, -, -, hdesks⟩
    exact ⟨hborrowed, hdesks⟩

/-- A batch that was answered has not aborted the driver. -/
theorem ne_abort_of_answerIn {index : Index} {settings : Settings} {queries : List Query}
    {pool after : Pool (List (Desk Product))} {moves : List Move} {sink written : Sink}
    {result : Except Failure Unit}
    (hanswer : answerIn moves index settings queries pool sink = some (result, after, written)) :
    result ≠ .error .abort := by
  rw [answerIn] at hanswer
  split at hanswer
  · obtain ⟨rfl, -⟩ := Option.some.inj hanswer
    simp
  · rcases Option.bind_eq_some_iff.mp hanswer with ⟨shop, -, hdone⟩
    rcases Option.map_eq_some_iff.mp hdone with ⟨results, -, houtcome⟩
    rcases hdeliver : deliver (results.map (·.bind Product.lines?)) sink with ⟨_ | _, out⟩ <;>
      rw [hdeliver] at houtcome <;> obtain ⟨rfl, -⟩ := houtcome <;> simp [Except.mapError]

/-- Whatever steps the threads take, a batch ends as it ends with any crew. -/
theorem answerIn_eq_answerTo {index : Index} {settings : Settings} {queries : List Query}
    (hfits : ∀ query ∈ queries, query.fits settings = true)
    {pool after : Pool (List (Desk Product))} (hpool : pool.AtRest) {moves : List Move}
    {sink written : Sink} {result : Except Failure Unit}
    (hanswer : answerIn moves index settings queries pool sink = some (result, after, written))
    (crew : Crew σ) (other : Pool σ) :
    ∃ later, answerTo crew index settings queries other sink = (result, later, written) := by
  rw [answerIn] at hanswer
  rw [answerTo]
  split at hanswer
  · rename_i hempty
    obtain ⟨rfl, -, rfl⟩ := Option.some.inj hanswer
    exact ⟨other, if_pos hempty⟩
  · rename_i hslices
    rcases Option.bind_eq_some_iff.mp hanswer with ⟨shop, hrun, hdone⟩
    rcases Option.map_eq_some_iff.mp hdone with ⟨results, hresults, houtcome⟩
    rcases sound_of_run hfits hpool hrun with ⟨expected, hsound⟩
    rcases Workshop.done_of_results? hsound hresults with ⟨hgoal, -⟩
    obtain ⟨later, hfan⟩ := Pool.fanOut_map crew (Slice.split queries settings.parallelism)
      (fun slice hslice => sliceResult?_of_fits index (fits_of_mem_split hfits hslice) ▸
        sliceJob_ends crew index settings slice) other
    have hlines : results.map (·.bind Product.lines?) =
        (Slice.split queries settings.parallelism).map fun slice =>
          some (.ok (slice.flatMap (Query.line index))) := by
      rw [hgoal, sliceLines, List.map_map, List.map_map]
      rfl
    rw [hlines] at houtcome
    rcases hdeliver : deliver ((Slice.split queries settings.parallelism).map fun slice =>
      some (.ok (slice.flatMap (Query.line index)))) sink with ⟨ended, out⟩
    rw [hdeliver] at houtcome
    obtain ⟨rfl, -, rfl⟩ := houtcome
    refine ⟨later, ?_⟩
    simp only [hslices, Bool.false_eq_true, if_false, hfan, hdeliver]
    cases ended <;> rfl

end Batch

/-! ## Sessions -/

/-- A flush that no line asked for is a call of its own. -/
theorem Call.eq_flush_of_deed {phase : Phase} {call : Call} (hdeed : call.deed phase = .flush) :
    call = .flush := by
  cases call with
  | flush => rfl
  | _ =>
      cases phase <;> simp only [deed, Deed.ofLine, reduceCtorEq] at hdeed <;>
        split at hdeed <;> cases hdeed

/-- No operation that is not allowed in a phase is one on a borrowed index. -/
theorem Call.verdict_ne_indexShared (call : Call) (phase : Phase) (lineNumber : Nat) :
    (call.deed phase).verdict lineNumber ≠ .error Session.indexShared := by
  have hline : ∀ line, (Deed.ofLine line).verdict lineNumber ≠ .error Session.indexShared := by
    intro line
    rw [Deed.ofLine]
    split <;> simp [Deed.verdict, Session.indexShared, Session.misuse]
  cases phase with
  | bulkLoad =>
      cases call with
      | consumeLine line =>
          rw [deed]
          split <;> simp [Deed.verdict]
      | _ => simp [deed, Deed.verdict, Session.indexShared, Session.misuse]
  | workload =>
      cases call with
      | consumeLine line => exact hline line
      | applyLine line => exact hline line
      | _ => simp [deed, Deed.verdict, Session.indexShared, Session.misuse]

/-- A crew without workers. -/
def Crew.absent : Crew σ := ⟨fun workers => (none, workers), fun _ => id, fun _ => id⟩

namespace Session

/-- Answers the queries in the queue by the given steps; nothing if these steps cannot be taken
or do not suffice. -/
def flushIn (moves : List Move) (session : Session (List (Desk Product))) :
    Option (Except Failure Unit × Session (List (Desk Product))) :=
  (Batch.answerIn moves session.index session.settings session.pending.toList session.pool
    session.sink).map fun (result, pool, sink) =>
      (result, { session.book .flush with pool := pool, sink := sink })

/-- Performs one call, which carries out a flush by the given steps.  No other call needs any. -/
def performIn (moves : List Move) (session : Session (List (Desk Product))) (call : Call) :
    Option (Except Failure Unit × Session (List (Desk Product))) :=
  match call.deed session.phase with
  | .flush => session.flushIn moves
  | .command .flush =>
    { session.nextLine with opIndex := session.opIndex + 1 }.flushIn moves
  | _ => some (session.perform .absent call)

/-- The session after an event, which carries out a flush by the given steps. -/
def meetIn (session : Session (List (Desk Product))) :
    Event × List Move → Option (Session (List (Desk Product)))
  | (.call call, moves) => (session.performIn moves call).map Prod.snd
  | (.limits room flushes, _) =>
    some { session with sink := { session.sink with room := room, flushesLeft := flushes } }

/-- The session after events, of which the flushes are carried out by given steps. -/
def meetAllIn (session : Session (List (Desk Product))) (events : List (Event × List Move)) :
    Option (Session (List (Desk Product))) :=
  events.foldlM meetIn session

/-- Only a flush has work for a crew. -/
theorem perform_of_not_isFlush {session : Session σ} {call : Call}
    (hflush : (call.deed session.phase).isFlush = false) (crew other : Crew σ) :
    session.perform crew call = session.perform other call := by
  rw [perform_eq_carryOut, perform_eq_carryOut]
  cases hdeed : call.deed session.phase with
  | command command =>
      rw [hdeed] at hflush
      cases command with
      | flush => cases hflush
      | _ => rfl
  | flush =>
      rw [hdeed] at hflush
      cases hflush
  | _ => rfl

/-- Whether nobody borrows the index and no job waits for a worker. -/
structure Settled (session : Session (List (Desk Product))) : Prop where
  roomy : session.Roomy
  rest : session.pool.AtRest

/-- Only the settings and the pool decide whether a session is settled. -/
theorem Settled.congr {session other : Session (List (Desk Product))} (h : session.Settled)
    (hsettings : other.settings = session.settings) (hpool : other.pool = session.pool) :
    other.Settled :=
  ⟨h.roomy.congr hsettings hpool, hpool ▸ h.rest⟩

/-- A session at its beginning is settled if no job waits for a worker. -/
theorem settled_start {settings : Settings} {desks : List (Desk Product)} {sink : Sink}
    {session : Session (List (Desk Product))}
    (hstart : Session.start settings (.start desks) sink = .ok session)
    (hroom : Text.hasRoom settings.fragmentWorkers = true)
    (hdesks : ∀ desk ∈ desks, desk.queue = []) : session.Settled := by
  refine ⟨roomy_start hstart hroom, ?_⟩
  rw [(start_eq_ok hstart).2]
  exact hdesks

/-- Whatever steps the threads take, a flush ends as with any crew, apart from the pool, which
it leaves settled. -/
theorem flushIn_eq_flush {session after : Session (List (Desk Product))} (h : session.Settled)
    {moves : List Move} {result : Except Failure Unit}
    (hflush : session.flushIn moves = some (result, after))
    (crew : Crew (List (Desk Product))) :
    result = (session.flush crew).1 ∧
      after = { (session.flush crew).2 with pool := after.pool } ∧ after.Settled := by
  rcases Option.map_eq_some_iff.mp hflush with ⟨⟨ended, pool, sink⟩, hanswer, hafter⟩
  obtain ⟨rfl, rfl⟩ := Prod.mk.inj hafter
  rcases Batch.answerIn_eq_answerTo h.roomy.fits h.rest hanswer crew session.pool with
    ⟨later, hcrew⟩
  rcases Batch.settled_of_answerIn h.roomy.fits h.rest hanswer with ⟨hborrowed, hrest⟩
  rw [flush_eq_book hcrew (Batch.ne_abort_of_answerIn hanswer)]
  refine ⟨rfl, rfl, ⟨⟨h.roomy.slices, ?_⟩, h.roomy.room⟩, hrest⟩
  have hsettled := h.roomy.settled
  rw [Pool.isSettled] at hsettled ⊢
  rw [hborrowed]
  exact hsettled

/-- Whatever steps the threads take, a call ends as with any crew, apart from the pool, which it
leaves settled. -/
theorem performIn_eq_perform {session after : Session (List (Desk Product))}
    (h : session.Settled) {moves : List Move} {call : Call} {result : Except Failure Unit}
    (hperform : session.performIn moves call = some (result, after))
    (crew : Crew (List (Desk Product))) :
    result = (session.perform crew call).1 ∧
      after = { (session.perform crew call).2 with pool := after.pool } ∧ after.Settled := by
  rw [performIn] at hperform
  split at hperform
  · rename_i hdeed
    rw [perform_eq_carryOut, hdeed]
    exact flushIn_eq_flush h hperform crew
  · rename_i hdeed
    have hnext : Settled { session.nextLine with opIndex := session.opIndex + 1 } :=
      h.congr rfl rfl
    rw [perform_eq_carryOut, hdeed]
    exact flushIn_eq_flush hnext hperform crew
  · rename_i hflush hline
    have hidle : (call.deed session.phase).isFlush = false :=
      Bool.eq_false_iff.mpr fun hdeed => (Deed.isFlush_iff.mp hdeed).elim hline hflush
    rw [perform_of_not_isFlush hidle _ crew] at hperform
    have hafter : session.perform crew call = (result, after) := Option.some.inj hperform
    have hroomy := h.roomy.perform crew call
    have hpool : (session.perform crew call).2.pool = session.pool := by
      rw [perform_snd h.roomy, Session.after, poolAfter, hidle]
      rfl
    rw [hafter] at hroomy hpool ⊢
    exact ⟨rfl, rfl, hroomy, hpool ▸ h.rest⟩

/-- A call is never refused because a job borrows the index. -/
theorem perform_ne_indexShared {session : Session σ} (h : session.Roomy) (crew : Crew σ)
    (call : Call) : (session.perform crew call).1 ≠ .error indexShared := by
  intro hshared
  rcases verdict_or_io_of_perform h crew hshared with hverdict | ⟨context, source, hio⟩
  · exact call.verdict_ne_indexShared session.phase session.lineNumber hverdict
  · cases hio

/-- Whatever happens to a session, it is settled afterwards. -/
theorem Settled.meetAllIn {session now : Session (List (Desk Product))} (h : session.Settled)
    {events : List (Event × List Move)} (hevents : session.meetAllIn events = some now) :
    now.Settled := by
  induction events generalizing session with
  | nil =>
      obtain rfl := Option.some.inj hevents
      exact h
  | cons event rest ih =>
      rw [Session.meetAllIn, List.foldlM_cons] at hevents
      rcases Option.bind_eq_some_iff.mp hevents with ⟨next, hnext, hrest⟩
      refine ih ?_ hrest
      rcases event with ⟨call | ⟨room, flushes⟩, moves⟩
      · rcases Option.map_eq_some_iff.mp hnext with ⟨⟨result, after⟩, hperform, rfl⟩
        exact (performIn_eq_perform h hperform .absent).2.2
      · obtain rfl := Option.some.inj hnext
        exact h.congr rfl rfl

/-- Whatever steps the threads take while a batch is answered, in whatever state the pool is
and whatever the output does, if there is room for the fragments of the documents, so that no
job aborts its thread: a job returns the index before its result can be received, and
when the batch is answered, or its answers could not be written, every result was received and
nobody borrows the index who did not before.  So nobody borrows the index between the calls of a
session.  Each call ends as with any crew, apart from the pool, and none is refused because a
job borrows the index. -/
theorem flush_barrier :
    (∀ (index : Index) (settings : Settings) (queries : List Query)
        (pool : Pool (List (Desk Product))),
      (∀ query ∈ queries, query.fits settings = true) → pool.AtRest → ∀ moves : List Move,
      (∀ shop, (Batch.opened index settings queries pool).run moves = some shop →
        shop.Accounts pool.borrowed) ∧
      ∀ sink result after written,
        Batch.answerIn moves index settings queries pool sink = some (result, after, written) →
          after.borrowed = pool.borrowed ∧ after.AtRest) ∧
    ∀ (settings : Settings) (desks : List (Desk Product)) (sink : Sink)
        (session : Session (List (Desk Product))),
      Session.start settings (.start desks) sink = .ok session →
      Text.hasRoom settings.fragmentWorkers = true → (∀ desk ∈ desks, desk.queue = []) →
      ∀ (events : List (Event × List Move)) (now : Session (List (Desk Product))),
        session.meetAllIn events = some now →
        now.pool.isSettled = true ∧
          ∀ moves call result after, now.performIn moves call = some (result, after) →
            (∀ crew, result = (now.perform crew call).1 ∧
              after = { (now.perform crew call).2 with pool := after.pool }) ∧
            result ≠ .error indexShared := by
  refine ⟨?_, ?_⟩
  · intro index settings queries pool hfits hpool moves
    exact ⟨fun shop => Batch.accounts_of_run hfits hpool,
      fun sink result after written => Batch.settled_of_answerIn hfits hpool⟩
  · intro settings desks sink session hstart hroom hdesks events now hevents
    have hnow := (settled_start hstart hroom hdesks).meetAllIn hevents
    refine ⟨hnow.roomy.settled, fun moves call result after hperform => ⟨fun crew => ?_, ?_⟩⟩
    · rcases performIn_eq_perform hnow hperform crew with ⟨hresult, hafter, -⟩
      exact ⟨hresult, hafter⟩
    · rw [(performIn_eq_perform hnow hperform .absent).1]
      exact perform_ne_indexShared hnow.roomy .absent call

/-- Two queries are answered by the driver and two workers: the first worker takes the first
slice and hands one of its fragments to the second one, and the driver runs the others.  After
twelve steps three jobs borrow the index.  The answers cannot be written, and the first worker has
not freed its slot when the flush fails, but the next addition succeeds. -/
theorem flush_barrier_failing_output :
    let text := Text.ofString
    let on : Nat → Move := fun thread => ⟨thread, none⟩
    let moves : List Move :=
      [on 0, ⟨0, some 0⟩, on 0, on 1, on 0, on 1, on 0, on 1, on 1, on 1, on 0, ⟨0, some 1⟩,
        on 1, on 0, on 2, on 0, on 0, on 1, on 1, on 0, on 2, on 1, on 2, on 0, on 0, on 0,
        on 2, on 0, on 0, on 0, on 0]
    let events : List (Event × List Move) :=
      [(.call (.consumeLine (text "a b")), []), (.call (.consumeLine (text "S")), []),
        (.call (.consumeLine (text "Q a b")), []), (.call (.consumeLine (text "Q b a b")), []),
        (.call (.applyLine (text "F")), moves)]
    let addition := Call.applyLine (text "A b")
    let queries : List Query := [⟨text "a b", 1⟩, ⟨text "b a b", 2⟩]
    ∃ (session now after : Session (List (Desk Product))) (result : Except Failure Unit)
        (shop : Workshop Product),
      Session.start ⟨2, 2, 2, 1⟩ (.start [.idle, .idle]) (Sink.limited (some 2) none) =
          .ok session ∧
        (∀ query ∈ queries, query.fits now.settings = true) ∧ Text.hasRoom 2 = true ∧
        session.meetAllIn events = some now ∧ now.pool.isSettled = true ∧
        now.performIn [] addition = some (result, after) ∧ result.toOption = some () ∧
        result ≠ .error indexShared ∧
        now.pool.workers.map Desk.claimed = [true, false] ∧ now.sink.taken = text "R\n" ∧
        (Batch.opened now.index now.settings queries (.start [.idle, .idle])).run
          (moves.take 12) = some shop ∧
        shop.Accounts 0 ∧ shop.floor.pool.borrowed = 3 := by
  intro text on moves events addition queries
  let session : Session (List (Desk Product)) :=
    ⟨⟨2, 2, 2, 1⟩, .empty, .start [.idle, .idle], Sink.limited (some 2) none, #[], 0, 0,
      .bulkLoad, .zero, .new⟩
  have hstart : Session.start ⟨2, 2, 2, 1⟩ (.start [.idle, .idle])
      (Sink.limited (some 2) none) = .ok session := rfl
  have hdesks : ∀ desk ∈ [Desk.idle, Desk.idle], desk.queue = ([] : List (Task Product)) := by
    simp [Desk.idle]
  have hnow : (session.meetAllIn events).map (fun now =>
      (now.pool.workers.map Desk.claimed, now.sink.taken,
        (now.performIn [] addition).map (·.1.toOption),
        ((Batch.opened now.index now.settings queries (.start [.idle, .idle])).run
          (moves.take 12)).map (·.floor.pool.borrowed))) =
      some ([true, false], text "R\n", some (some ()), some 3) := by
    decide +kernel
  have hall : (session.meetAllIn events).map (fun now => queries.all (Query.fits now.settings)) =
      some true := by
    decide +kernel
  rcases Option.map_eq_some_iff.mp hnow with ⟨now, hevents, hvalues⟩
  simp only [Prod.mk.injEq, Option.map_eq_some_iff] at hvalues
  rcases hvalues with
    ⟨hclaimed, htaken, ⟨⟨result, after⟩, hperform, hresult⟩, shop, hrun, hborrowed⟩
  rw [hevents] at hall
  have hfits : ∀ query ∈ queries, query.fits now.settings = true :=
    List.all_eq_true.mp (Option.some.inj hall)
  have hroom : Text.hasRoom 2 = true := by decide
  rcases flush_barrier.2 _ _ _ _ hstart hroom hdesks events now hevents with ⟨hsettled, hcalls⟩
  have hallowed := (hcalls [] addition result after hperform).2
  have haccounts :=
    (flush_barrier.1 _ _ _ (.start [.idle, .idle]) hfits hdesks (moves.take 12)).1 shop hrun
  exact ⟨session, now, after, result, shop, hstart, hfits, hroom, hevents, hsettled, hperform,
    hresult, hallowed, hclaimed, htaken, hrun, haccounts, hborrowed⟩

end Session

end PhraseLedger
