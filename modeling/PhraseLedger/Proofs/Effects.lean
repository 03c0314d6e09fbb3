import PhraseLedger.Session.Report
import PhraseLedger.Proofs.Deeds

/-!
# What a call does

If there is room for the fragments of all documents, no call aborts its thread.  Then what a
call does can be read off its deed: besides the books, it changes the pool as the batch of the
queue does, and it sends the ready line or the answers to the queue to the sink, which may fail
to take them.

Main definitions:

- Definition {lit}`Session.sends`: what a deed sends to the sink.
- Definition {lit}`Session.after`: the session after a deed.
- Definition {lit}`Session.Roomy`: whether no call aborts its thread.

Main results:

- Theorem {lit}`Session.perform_does_of_fits`: all that a call can do to a session, if there is
  room for what it needs.
- Theorem {lit}`Session.perform_does`: the same for a session with room for all documents.
- Theorem {lit}`Session.perform_does_of_ok`: the same for a call that succeeds.
-/

namespace PhraseLedger

namespace Session

variable {σ : Type}

/-- The answer lines of the queries in the queue. -/
def answers (session : Session σ) : Text :=
  session.pending.toList.flatMap (Query.line session.index)

/-- What a deed sends to the sink: the ready line, or the answers to the queries in the
queue, if there are any. -/
def sends (session : Session σ) (deed : Deed) : Option Text :=
  if deed = .openWorkload then some readyLine
  else if deed.isFlush ∧ session.pending.toList ≠ [] then some session.answers
  else none

/-- Number of jobs that a deed takes. -/
def jobCount (session : Session σ) (deed : Deed) : Nat :=
  if deed.isFlush then Batch.jobCount session.settings session.pending.toList else 0

/-- The sink after a deed. -/
def sinkAfter (session : Session σ) (deed : Deed) : Sink :=
  match session.sends deed with
  | none => session.sink
  | some text => (session.sink.send text).2

/-- The pool after a deed. -/
def poolAfter (crew : Crew σ) (session : Session σ) (deed : Deed) : Pool σ :=
  if deed.isFlush then
    Batch.poolAfter crew session.index session.settings session.pending.toList session.pool
  else session.pool

/-- The session after a deed. -/
def after (crew : Crew σ) (session : Session σ) (deed : Deed) : Session σ :=
  { session.book deed with
    pool := session.poolAfter crew deed
    sink := session.sinkAfter deed }

/-- Whether an outcome is that of a deed: its verdict, or the failure of the sink to take
what the deed sends, and the session after the deed. -/
def Does (crew : Crew σ) (session : Session σ) (deed : Deed)
    (outcome : Except Failure Unit × Session σ) : Prop :=
  ∃ context, outcome =
    (match session.sends deed with
      | none => deed.verdict session.lineNumber
      | some text =>
        (session.sink.send text).1.mapError fun source => .error (.io context source),
      session.after crew deed)

theorem Does.snd {crew : Crew σ} {session : Session σ} {deed : Deed}
    {outcome : Except Failure Unit × Session σ} (hdoes : session.Does crew deed outcome) :
    outcome.2 = session.after crew deed := by
  rcases hdoes with ⟨context, rfl⟩
  rfl

/-! ## Deeds one by one -/

/-- A deed that neither sends anything nor needs a job ends with its verdict. -/
theorem does_of_silent (crew : Crew σ) {session : Session σ} {deed : Deed}
    (hopen : deed ≠ .openWorkload) (hflush : deed.isFlush = false) :
    session.Does crew deed (deed.verdict session.lineNumber, session.book deed) := by
  have hsends : session.sends deed = none := by
    simp [sends, hopen, hflush]
  have hidle : ¬deed.isFlush = true := by
    simp [hflush]
  refine ⟨"", ?_⟩
  rw [after, sinkAfter, poolAfter, hsends, if_neg hidle, ← book_pool session deed,
    ← book_sink session deed]

theorem openWorkload_does (crew : Crew σ) {session : Session σ}
    (hphase : session.phase = .bulkLoad) :
    session.Does crew .openWorkload session.openWorkload := by
  have hopen : ¬session.nextLine.phase ≠ .bulkLoad := not_not.mpr hphase
  refine ⟨"writing ready line", ?_⟩
  rw [openWorkload, if_neg hopen, after, sinkAfter, sends, if_pos rfl]
  simp only [Sink.send, show (session.nextLine.stopWatch .bulkLoad).sink = session.sink from rfl]
  rcases session.sink.write readyLine with ⟨_ | _, written⟩
  · rfl
  · simp only
    rcases written.flush with ⟨_ | _, after⟩ <;> rfl

/-- A flush with room for its queries sends their answers to the sink. -/
theorem flush_does {session : Session σ} (h : session.Ready)
    (hfits : ∀ query ∈ session.pending.toList, query.fits session.settings = true)
    (crew : Crew σ) : session.Does crew .flush (session.flush crew) := by
  rcases Batch.exists_answerTo_send crew session.index h.slices hfits session.pool
    session.sink with ⟨context, hanswer⟩
  refine ⟨context, ?_⟩
  have hclosed : Deed.flush ≠ .openWorkload := by simp
  rw [after, sinkAfter, sends, if_neg hclosed]
  by_cases hempty : session.pending.toList = []
  · have hnone : ¬(Deed.flush.isFlush = true ∧ session.pending.toList ≠ []) :=
      fun hsends => hsends.2 hempty
    rw [if_pos hempty] at hanswer
    rw [flush_eq_book hanswer (by simp)]
    simp only [if_neg hnone]
    rfl
  · have hsome : Deed.flush.isFlush = true ∧ session.pending.toList ≠ [] := ⟨rfl, hempty⟩
    rw [if_neg hempty] at hanswer
    have hreturns : (session.sink.send session.answers).1.mapError
        (fun source => Failure.error (.io context source)) ≠ .error .abort := by
      cases (session.sink.send session.answers).1 <;> simp [Except.mapError]
    rw [flush_eq_book hanswer hreturns]
    simp only [if_pos hsome]
    rfl

/-! ## Calls -/

/-- A call does what it comes to in the phase of the session, if it is no flush or there is room
for the queries in the queue. -/
theorem perform_does_of_fits {session : Session σ} (h : session.Ready) (crew : Crew σ)
    (call : Call)
    (hfits : (call.deed session.phase).isFlush = true →
      ∀ query ∈ session.pending.toList, query.fits session.settings = true) :
    session.Does crew (call.deed session.phase) (session.perform crew call) := by
  have hbulk := call.phase_of_isBulk session.phase
  rw [perform_eq_carryOut]
  cases hdeed : call.deed session.phase with
  | misuse name => exact does_of_silent crew (by simp) rfl
  | malformed fault => exact does_of_silent crew (by simp) rfl
  | load text =>
      rw [carryOut, loadPhrase_eq_book h.settled (hbulk (hdeed ▸ rfl))]
      exact does_of_silent crew (by simp) rfl
  | openWorkload => exact openWorkload_does crew (hbulk (hdeed ▸ rfl))
  | command command =>
      have hnext : Ready { session.nextLine with opIndex := session.opIndex + 1 } :=
        h.congr rfl rfl
      cases command with
      | add phrase =>
          rw [carryOut, execute, mutate_of_isSettled hnext.settled]
          exact does_of_silent crew (by simp) rfl
      | remove phrase =>
          rw [carryOut, execute, mutate_of_isSettled hnext.settled]
          exact does_of_silent crew (by simp) rfl
      | query document => exact does_of_silent crew (by simp) rfl
      | flush => exact flush_does hnext (hfits (hdeed ▸ rfl)) crew
  | flush => exact flush_does h (hfits (hdeed ▸ rfl)) crew

/-- A flush leaves the pool as the jobs of its batch do, however it ends. -/
theorem pool_flush (crew : Crew σ) (session : Session σ) :
    (session.flush crew).2.pool =
      Batch.poolAfter crew session.index session.settings session.pending.toList
        session.pool := by
  rw [← Batch.pool_answerTo crew _ _ _ _ session.sink, flush]
  rcases Batch.answerTo crew session.index session.settings session.pending.toList
    session.pool session.sink with ⟨(error | _) | _, pool, sink⟩ <;> rfl

/-- A call leaves the pool as its deed does, however it ends. -/
theorem pool_perform {session : Session σ} (h : session.Ready) (crew : Crew σ) (call : Call) :
    (session.perform crew call).2.pool =
      session.poolAfter crew (call.deed session.phase) := by
  by_cases hflush : (call.deed session.phase).isFlush = true
  · rw [poolAfter, if_pos hflush, perform_eq_carryOut]
    rcases Deed.isFlush_iff.mp hflush with hdeed | hdeed <;> rw [hdeed]
    · exact pool_flush crew _
    · exact pool_flush crew session
  · rw [(perform_does_of_fits h crew call fun hfits => absurd hfits hflush).snd, after]

/-- There is room for the queries of a flush that succeeds. -/
theorem fits_of_flush_eq_ok {crew : Crew σ} {session : Session σ} (h : session.Ready)
    (hok : (session.flush crew).1 = .ok ()) :
    ∀ query ∈ session.pending.toList, query.fits session.settings = true := by
  rcases hanswer : Batch.answerTo crew session.index session.settings session.pending.toList
    session.pool session.sink with ⟨(error | _) | _, pool, sink⟩
  · rw [flush, hanswer] at hok
    cases hok
  · rw [flush, hanswer] at hok
    cases hok
  · exact Batch.fits_of_answerTo_eq_ok h.slices (congrArg Prod.fst hanswer)

/-- A call that succeeds is no flush, or there is room for its queries. -/
theorem fits_of_perform_eq_ok {crew : Crew σ} {session : Session σ} (h : session.Ready)
    {call : Call} (hok : (session.perform crew call).1 = .ok ()) :
    (call.deed session.phase).isFlush = true →
      ∀ query ∈ session.pending.toList, query.fits session.settings = true := by
  intro hflush
  rw [perform_eq_carryOut] at hok
  rcases Deed.isFlush_iff.mp hflush with hdeed | hdeed <;> rw [hdeed] at hok
  · have hnext : Ready { session.nextLine with opIndex := session.opIndex + 1 } :=
      h.congr rfl rfl
    have hfits := fits_of_flush_eq_ok hnext hok
    exact hfits
  · exact fits_of_flush_eq_ok h hok

/-- A call that succeeds does what it comes to. -/
theorem perform_does_of_ok {crew : Crew σ} {session : Session σ} (h : session.Ready)
    {call : Call} (hok : (session.perform crew call).1 = .ok ()) :
    session.Does crew (call.deed session.phase) (session.perform crew call) :=
  perform_does_of_fits h crew call (fits_of_perform_eq_ok h hok)

/-- Whether a session is ready for any call, and no call aborts its thread: the settings ask for
as many fragments of a document as there is room for. -/
structure Roomy (session : Session σ) : Prop extends Ready session where
  room : Text.hasRoom session.settings.fragmentWorkers = true

/-- Only the settings and the pool decide whether there is room. -/
theorem Roomy.congr {session other : Session σ} (h : session.Roomy)
    (hsettings : other.settings = session.settings) (hpool : other.pool = session.pool) :
    other.Roomy :=
  ⟨h.toReady.congr hsettings hpool, hsettings ▸ h.room⟩

/-- There is room for what the queries in the queue need. -/
theorem Roomy.fits {session : Session σ} (h : session.Roomy) :
    ∀ query ∈ session.pending.toList, query.fits session.settings = true :=
  fun query _ => Query.fits_of_hasRoom h.room query

/-- A call does what it comes to in the phase of the session. -/
theorem perform_does {session : Session σ} (h : session.Roomy) (crew : Crew σ) (call : Call) :
    session.Does crew (call.deed session.phase) (session.perform crew call) :=
  perform_does_of_fits h.toReady crew call fun _ => h.fits

/-- The session after a call. -/
theorem perform_snd {session : Session σ} (h : session.Roomy) (crew : Crew σ) (call : Call) :
    (session.perform crew call).2 = session.after crew (call.deed session.phase) :=
  (perform_does h crew call).snd

/-- A call that fails was not allowed, or the output did not take what it sends. -/
theorem verdict_or_io_of_perform {session : Session σ} (h : session.Roomy) (crew : Crew σ)
    {call : Call} {failure : Failure}
    (hfails : (session.perform crew call).1 = .error failure) :
    (call.deed session.phase).verdict session.lineNumber = .error failure ∨
      ∃ context source, failure = .error (.io context source) := by
  rcases perform_does h crew call with ⟨context, hdoes⟩
  rw [hdoes] at hfails
  cases hsends : session.sends (call.deed session.phase) with
  | none =>
      rw [hsends] at hfails
      exact .inl hfails
  | some text =>
      rw [hsends] at hfails
      cases hsend : (session.sink.send text).1 with
      | ok taken => simp [hsend, Except.mapError] at hfails
      | error source =>
          simp only [hsend, Except.mapError, Except.error.injEq] at hfails
          exact .inr ⟨context, source, hfails.symm⟩

/-- What sends something is allowed. -/
theorem verdict_of_sends {session : Session σ} {deed : Deed} {text : Text}
    (hsends : session.sends deed = some text) (lineNumber : Nat) :
    deed.verdict lineNumber = .ok () := by
  rw [sends] at hsends
  split_ifs at hsends with hopen hflush
  · rw [hopen]
    rfl
  · cases deed with
    | command command => rfl
    | flush => rfl
    | _ => simp [Deed.isFlush] at hflush

/-- A call succeeds if it is allowed and the sink takes what it sends. -/
theorem Does.result_eq_ok_iff {crew : Crew σ} {session : Session σ} {deed : Deed}
    {outcome : Except Failure Unit × Session σ} (hdoes : session.Does crew deed outcome) :
    outcome.1 = .ok () ↔
      deed.verdict session.lineNumber = .ok () ∧
        ∀ text, session.sends deed = some text → (session.sink.send text).1 = .ok () := by
  rcases hdoes with ⟨context, rfl⟩
  cases hsends : session.sends deed with
  | none => simp
  | some text =>
      have hverdict := verdict_of_sends hsends session.lineNumber
      cases hsend : (session.sink.send text).1 <;> simp [hverdict, hsend, Except.mapError]

/-! ## Outputs that do not fail -/

/-- On an output without limits a call ends with the verdict of its deed. -/
theorem Does.result_of_eq_unlimited {crew : Crew σ} {session : Session σ} {deed : Deed}
    {outcome : Except Failure Unit × Session σ} (hdoes : session.Does crew deed outcome)
    (hperfect : session.sink = { Sink.unlimited with taken := session.sink.taken }) :
    outcome.1 = deed.verdict session.lineNumber := by
  rcases hdoes with ⟨context, rfl⟩
  cases hsends : session.sends deed with
  | none => rfl
  | some text =>
      simp only [Sink.send_of_eq_unlimited hperfect, verdict_of_sends hsends]
      rfl

/-- An output without limits takes all that a deed sends. -/
theorem sinkAfter_of_eq_unlimited {session : Session σ}
    (hperfect : session.sink = { Sink.unlimited with taken := session.sink.taken })
    (deed : Deed) :
    session.sinkAfter deed =
      { Sink.unlimited with
        taken := session.sink.taken ++ (session.sends deed).getD [] } := by
  rw [sinkAfter]
  cases session.sends deed with
  | none => simpa using hperfect
  | some text => simp only [Sink.send_of_eq_unlimited hperfect, Option.getD_some]

/-! ## Sessions that go on -/

/-- The accounts after a deed. -/
theorem after_advances (crew : Crew σ) (session : Session σ) {deed : Deed}
    (hfits : deed.isFlush = true →
      ∀ query ∈ session.pending.toList, query.fits session.settings = true) :
    session.pool.Advances (session.jobCount deed) (session.after crew deed).pool := by
  simp only [after, poolAfter, jobCount]
  split
  · rename_i hflush
    exact Batch.poolAfter_advances crew session.index (hfits hflush) session.pool
  · exact Pool.Advances.refl session.pool

/-- A call leaves room for the next one. -/
theorem Roomy.perform {session : Session σ} (h : session.Roomy) (crew : Crew σ)
    (call : Call) : (session.perform crew call).2.Roomy := by
  refine ⟨h.toReady.perform crew call, ?_⟩
  rw [perform_snd h, Session.after]
  simpa using h.room

/-- A session at its beginning is ready for any call, if its settings ask for as many fragments
as there is room for. -/
theorem roomy_start {settings : Settings} {workers : σ} {sink : Sink} {session : Session σ}
    (hstart : Session.start settings (.start workers) sink = .ok session)
    (hroom : Text.hasRoom settings.fragmentWorkers = true) : session.Roomy := by
  refine ⟨ready_start hstart, ?_⟩
  rw [(start_eq_ok hstart).2]
  exact hroom

/-- No sequence of calls uses up the room. -/
theorem Roomy.performAll {session : Session σ} (h : session.Roomy) (crew : Crew σ)
    (calls : List Call) : (session.performAll crew calls).2.Roomy := by
  induction calls using List.reverseRecOn with
  | nil => exact h
  | append_singleton calls call ih =>
      rw [performAll_concat]
      exact ih.perform crew call

end Session

end PhraseLedger
