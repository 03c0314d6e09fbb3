import PhraseLedger.Proofs.Effects
import PhraseLedger.Proofs.Feeding

/-!
# Sessions behind different crews

Whether a worker takes a job is up to the crew, and so is where a job is counted.  Nothing else
depends on the crew, as long as no job aborts its thread: sessions behind different crews end
every line alike, and their runs come to the same outcome as soon as all jobs are counted
together.

Main definitions:

- Definition {lit}`Outcome.pooled`: an outcome in which all jobs are counted together.
- Definition {lit}`Session.Twins`: sessions that differ in their pools only.

Main results:

- Theorem {lit}`Session.Twins.consumeLine`: a line keeps sessions twins and ends alike on both.
- Theorem {lit}`Session.Twins.run`: runs of twins come to the same.
-/

namespace PhraseLedger

variable {σ τ : Type}

/-- A summary in which all jobs are counted together. -/
def Summary.pooled (summary : Summary) : Summary :=
  { summary with dispatched := 0, inline := summary.jobs }

/-- An outcome in which all jobs are counted together. -/
def Outcome.pooled (outcome : Outcome) : Outcome :=
  { outcome with result := outcome.result.map Summary.pooled }

namespace Session

/-- A session with a pool in place of its own. -/
def withPool (session : Session σ) (pool : Pool τ) : Session τ :=
  { session with pool := pool }

/-- The pool matters for the books of a deed only where it is kept. -/
theorem book_withPool (session : Session σ) (pool : Pool τ) (deed : Deed) :
    (session.withPool pool).book deed = (session.book deed).withPool pool := by
  cases deed with
  | command command => cases command <;> rfl
  | _ => rfl

/-- The end of the bulk load does not depend on the pool. -/
theorem openWorkload_withPool (session : Session σ) (pool : Pool τ) :
    (session.withPool pool).openWorkload =
      (session.openWorkload.1, session.openWorkload.2.withPool pool) := by
  have hphase : (session.withPool pool).nextLine.phase = session.nextLine.phase := rfl
  have hsink : ((session.withPool pool).nextLine.stopWatch .bulkLoad).sink =
      (session.nextLine.stopWatch .bulkLoad).sink := rfl
  rw [openWorkload, openWorkload, hphase]
  split
  · rfl
  · simp only [hsink]
    rcases (session.nextLine.stopWatch .bulkLoad).sink.write readyLine with ⟨_ | _, written⟩
    · rfl
    · simp only
      rcases written.flush with ⟨_ | _, after⟩ <;> rfl

/-- How a flush ends depends neither on the crew nor on the pool, if there is room for its
queries. -/
theorem flush_fst (crew : Crew σ) {session : Session σ}
    (hfits : ∀ query ∈ session.pending.toList, query.fits session.settings = true) :
    (session.flush crew).1 =
      (Batch.delivery session.index session.settings session.pending.toList
        session.sink).1.mapError Failure.error := by
  rw [flush, Batch.answerTo_eq_delivery crew session.index hfits]
  cases (Batch.delivery session.index session.settings session.pending.toList session.sink).1 <;>
    rfl

/-! ## Twins -/

/-- Whether two sessions have room for the fragments of all documents and differ in their pools
only, which have seen equally many jobs. -/
structure Twins (session : Session σ) (other : Session τ) : Prop where
  roomy : session.Roomy
  otherRoomy : other.Roomy
  same : other = session.withPool other.pool
  jobs : session.pool.jobs = other.pool.jobs

/-- Two sessions at their beginning are twins. -/
theorem twins_start {settings : Settings} {sink : Sink} {workers : σ} {others : τ}
    {session : Session σ} {other : Session τ}
    (hstart : Session.start settings (.start workers) sink = .ok session)
    (hother : Session.start settings (.start others) sink = .ok other)
    (hroom : Text.hasRoom settings.fragmentWorkers = true) : Twins session other := by
  have hroomy := roomy_start hstart hroom
  have hotherRoomy := roomy_start hother hroom
  rcases start_eq_ok hstart with ⟨-, rfl⟩
  rcases start_eq_ok hother with ⟨-, rfl⟩
  exact ⟨hroomy, hotherRoomy, rfl, rfl⟩

namespace Twins

variable {session : Session σ} {other : Session τ}

theorem phase (h : Twins session other) : session.phase = other.phase := by
  rw [h.same]
  rfl

theorem sink (h : Twins session other) : session.sink = other.sink := by
  rw [h.same]
  rfl

/-- A call keeps sessions twins. -/
theorem perform (h : Twins session other) (crew : Crew σ) (otherCrew : Crew τ) (call : Call) :
    Twins (session.perform crew call).2 (other.perform otherCrew call).2 := by
  have hroomy := h.roomy.perform crew call
  have hotherRoomy := h.otherRoomy.perform otherCrew call
  rw [perform_snd h.roomy] at hroomy ⊢
  rw [perform_snd h.otherRoomy, ← h.phase] at hotherRoomy ⊢
  generalize call.deed session.phase = deed at hroomy hotherRoomy ⊢
  have hbook : other.book deed = (session.book deed).withPool other.pool := by
    rw [h.same]
    exact book_withPool session other.pool deed
  have hsink : other.sinkAfter deed = session.sinkAfter deed := by
    rw [h.same]
    rfl
  have hcount : other.jobCount deed = session.jobCount deed := by
    rw [h.same]
    rfl
  refine ⟨hroomy, hotherRoomy, ?_, ?_⟩
  · simp only [Session.after, hbook, hsink, withPool]
  · rw [(after_advances crew session fun _ => h.roomy.fits).jobs,
      (after_advances otherCrew other fun _ => h.otherRoomy.fits).jobs, h.jobs, hcount]

/-- A flush ends alike on twins. -/
theorem flush_fst (h : Twins session other) (crew : Crew σ) (otherCrew : Crew τ) :
    (session.flush crew).1 = (other.flush otherCrew).1 := by
  rw [Session.flush_fst crew h.roomy.fits, Session.flush_fst otherCrew h.otherRoomy.fits, h.same]
  rfl

/-- Twins stay twins when a command is counted. -/
theorem nextCommand (h : Twins session other) :
    Twins { session.nextLine with opIndex := session.opIndex + 1 }
      { other.nextLine with opIndex := other.opIndex + 1 } := by
  refine ⟨h.roomy.congr rfl rfl, h.otherRoomy.congr rfl rfl, ?_, h.jobs⟩
  rw [h.same]
  rfl

/-- A deed ends alike on twins. -/
theorem carryOut_fst (h : Twins session other) (crew : Crew σ) (otherCrew : Crew τ) {deed : Deed}
    (hbulk : deed.isBulk = true → session.phase = .bulkLoad) :
    (session.carryOut crew deed).1 = (other.carryOut otherCrew deed).1 := by
  cases deed with
  | misuse name => rfl
  | malformed fault =>
      rw [h.same]
      rfl
  | load text =>
      rw [carryOut, carryOut, loadPhrase_eq_book h.roomy.settled (hbulk rfl),
        loadPhrase_eq_book h.otherRoomy.settled (h.phase ▸ hbulk rfl)]
  | openWorkload =>
      rw [carryOut, carryOut, h.same, openWorkload_withPool]
  | command command =>
      have hnext := h.nextCommand
      cases command with
      | add phrase =>
          rw [carryOut, carryOut, execute, execute, mutate_of_isSettled hnext.roomy.settled,
            mutate_of_isSettled hnext.otherRoomy.settled]
      | remove phrase =>
          rw [carryOut, carryOut, execute, execute, mutate_of_isSettled hnext.roomy.settled,
            mutate_of_isSettled hnext.otherRoomy.settled]
      | query document => rfl
      | flush => exact hnext.flush_fst crew otherCrew
  | flush => exact h.flush_fst crew otherCrew

/-- A line keeps sessions twins and ends alike on both. -/
theorem consumeLine (h : Twins session other) (crew : Crew σ) (otherCrew : Crew τ)
    (line : Text) :
    (session.consumeLine crew line).1 = (other.consumeLine otherCrew line).1 ∧
      Twins (session.consumeLine crew line).2 (other.consumeLine otherCrew line).2 := by
  refine ⟨?_, h.perform crew otherCrew (.consumeLine line)⟩
  have hsession := perform_eq_carryOut crew session (.consumeLine line)
  have hother := perform_eq_carryOut otherCrew other (.consumeLine line)
  rw [Session.perform] at hsession hother
  rw [hsession, hother, ← h.phase]
  exact h.carryOut_fst crew otherCrew (Call.phase_of_isBulk session.phase _)

/-- A line as it stands in the input keeps sessions twins and ends alike on both. -/
theorem consumeRaw (h : Twins session other) (crew : Crew σ) (otherCrew : Crew τ)
    (line : Text) :
    (session.consumeRaw crew line).1 = (other.consumeRaw otherCrew line).1 ∧
      Twins (session.consumeRaw crew line).2 (other.consumeRaw otherCrew line).2 := by
  rw [Session.consumeRaw, Session.consumeRaw]
  split
  · exact h.consumeLine crew otherCrew line.trimLineEnd
  · exact ⟨rfl, h⟩

/-- Lines keep sessions twins and end alike on both. -/
theorem consumeAll (h : Twins session other) (crew : Crew σ) (otherCrew : Crew τ)
    (lines : List Text) :
    (session.consumeAll crew lines).1 = (other.consumeAll otherCrew lines).1 ∧
      Twins (session.consumeAll crew lines).2 (other.consumeAll otherCrew lines).2 := by
  induction lines generalizing session other with
  | nil => exact ⟨rfl, h⟩
  | cons line rest ih =>
      obtain ⟨hresult, hafter⟩ := h.consumeRaw crew otherCrew line
      rw [Session.consumeAll, Session.consumeAll]
      rcases hline : session.consumeRaw crew line with ⟨result, next⟩
      rcases hotherLine : other.consumeRaw otherCrew line with ⟨otherResult, otherNext⟩
      simp only [hline, hotherLine] at hresult hafter
      subst hresult
      cases result with
      | error failure => exact ⟨rfl, hafter⟩
      | ok _ => exact ih hafter

/-- Twins come to the same when all jobs are counted together. -/
theorem summary (h : Twins session other) : session.summary.pooled = other.summary.pooled := by
  have hjobs : session.pool.dispatched + session.pool.inline =
      other.pool.dispatched + other.pool.inline := h.jobs
  rw [h.same]
  simp only [Summary.pooled, Summary.jobs, Session.summary, hjobs]
  rfl

/-- The end of a run comes to the same on twins when all jobs are counted together. -/
theorem close (h : Twins session other) : session.close.pooled = other.close.pooled := by
  have hsummary := h.summary
  have hwarning : session.dropWarning = other.dropWarning := by
    rw [h.same]
    rfl
  rw [Session.close, Session.close, h.phase]
  cases other.phase with
  | bulkLoad => simp only [Outcome.pooled, h.sink]
  | workload => simp only [Outcome.pooled, finish, h.sink, hwarning, Except.map, hsummary]

/-- Runs of twins over the same input come to the same when all jobs are counted together. -/
theorem run (h : Twins session other) (crew : Crew σ) (otherCrew : Crew τ) (input : Text) :
    (session.run crew input).pooled = (other.run otherCrew input).pooled := by
  obtain ⟨hresult, hafter⟩ := h.consumeAll crew otherCrew input.lines
  rw [Session.run, Session.run]
  rcases hlines : session.consumeAll crew input.lines with ⟨result, last⟩
  rcases hotherLines : other.consumeAll otherCrew input.lines with ⟨otherResult, otherLast⟩
  simp only [hlines, hotherLines] at hresult hafter
  subst hresult
  cases result with
  | error failure => simp only [Outcome.pooled, hafter.sink]
  | ok _ => exact hafter.close

end Twins

end Session

end PhraseLedger
