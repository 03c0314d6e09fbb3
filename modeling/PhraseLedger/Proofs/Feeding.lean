import PhraseLedger.Session.Run
import PhraseLedger.Proofs.Deeds
import PhraseLedger.Proofs.Sinks

/-!
# Feeding lines to a session

A run feeds its lines to the session one after the other and stops at the first one that
fails.  Until then it does what the calls of these lines do.

Main definitions:

- Definition {lit}`Call.ofLine`: the call that a line of the input makes.

Main results:

- Theorem {lit}`Session.consumeAll_append`: what is fed in two parts.
- Theorem {lit}`Session.performAll_of_consumeAll`: lines that do not fail are calls.
-/

namespace PhraseLedger

/-- The call that a line makes as it stands in the input. -/
def Call.ofLine (line : Text) : Call :=
  .consumeLine line.trimLineEnd

namespace Session

variable {σ : Type} {crew : Crew σ} {session after : Session σ}

/-- A line of well-formed UTF-8 makes its call. -/
theorem consumeRaw_of_isUtf8 {line : Text} (hutf8 : line.isUtf8 = true) :
    session.consumeRaw crew line = session.perform crew (.ofLine line) :=
  if_pos hutf8

/-- Lines behind others are fed to the session that the others leave, unless one of the
others fails. -/
theorem consumeAll_append (crew : Crew σ) (session : Session σ) (front back : List Text) :
    session.consumeAll crew (front ++ back) =
      match session.consumeAll crew front with
      | (.ok (), between) => between.consumeAll crew back
      | (.error failure, between) => (.error failure, between) := by
  induction front generalizing session with
  | nil => rfl
  | cons line front ih =>
      rw [List.cons_append, consumeAll, consumeAll]
      rcases session.consumeRaw crew line with ⟨_ | _, next⟩
      · rfl
      · exact ih next

theorem consumeRaw_eq_ok {line : Text}
    (hline : session.consumeRaw crew line = (.ok (), after)) :
    line.isUtf8 = true ∧ session.consumeLine crew line.trimLineEnd = (.ok (), after) := by
  rw [consumeRaw] at hline
  split_ifs at hline with hutf8
  · exact ⟨hutf8, hline⟩
  · cases (Prod.mk.inj hline).1

/-- Lines of which none fails are taken one by one. -/
theorem consumeAll_cons_eq_ok {line : Text} {rest : List Text}
    (hrun : session.consumeAll crew (line :: rest) = (.ok (), after)) :
    ∃ next, line.isUtf8 = true ∧ session.consumeLine crew line.trimLineEnd = (.ok (), next) ∧
      next.consumeAll crew rest = (.ok (), after) := by
  rw [consumeAll] at hrun
  rcases hline : session.consumeRaw crew line with ⟨_ | _, next⟩
  · rw [hline] at hrun
    cases (Prod.mk.inj hrun).1
  · rw [hline] at hrun
    rcases consumeRaw_eq_ok hline with ⟨hutf8, hconsume⟩
    exact ⟨next, hutf8, hconsume, hrun⟩

/-- Lines of which none fails are UTF-8. -/
theorem isUtf8_of_consumeAll {lines : List Text}
    (hrun : session.consumeAll crew lines = (.ok (), after)) :
    ∀ line ∈ lines, line.isUtf8 = true := by
  induction lines generalizing session with
  | nil => exact fun line hline => absurd hline List.not_mem_nil
  | cons line rest ih =>
      rcases consumeAll_cons_eq_ok hrun with ⟨next, hutf8, -, hrest⟩
      exact List.forall_mem_cons.mpr ⟨hutf8, ih hrest⟩

/-- If no line fails, a last one is taken by the session that the others leave. -/
theorem consumeAll_concat_eq_ok {lines : List Text} {line : Text}
    (hrun : session.consumeAll crew (lines ++ [line]) = (.ok (), after)) :
    ∃ between, session.consumeAll crew lines = (.ok (), between) ∧
      between.consumeRaw crew line = (.ok (), after) := by
  rw [consumeAll_append] at hrun
  rcases hlines : session.consumeAll crew lines with ⟨_ | _, between⟩
  · rw [hlines] at hrun
    cases (Prod.mk.inj hrun).1
  · rw [hlines] at hrun
    simp only [consumeAll] at hrun
    rcases hline : between.consumeRaw crew line with ⟨_ | _, last⟩
    · rw [hline] at hrun
      cases (Prod.mk.inj hrun).1
    · rw [hline] at hrun
      exact ⟨between, rfl, hline.trans hrun⟩

/-- Lines of which none fails do what their calls do. -/
theorem performAll_of_consumeAll {lines : List Text}
    (hrun : session.consumeAll crew lines = (.ok (), after)) :
    (session.performAll crew (lines.map Call.ofLine)).2 = after := by
  induction lines generalizing session with
  | nil => exact (Prod.mk.inj hrun).2
  | cons line rest ih =>
      rcases consumeAll_cons_eq_ok hrun with ⟨next, -, hline, hrest⟩
      have hcall : session.perform crew (.ofLine line) = (.ok (), next) := hline
      rw [List.map_cons, performAll, hcall]
      exact ih hrest

/-! ## Runs -/

/-- A result that is no failure is a value. -/
theorem exists_of_isOk {ε α : Type} {result : Except ε α} (hok : result.isOk = true) :
    ∃ value, result = .ok value := by
  cases result with
  | error failure => cases hok
  | ok value => exact ⟨value, rfl⟩

/-- A run whose lines do not fail and lead to the workload ends the session behind them. -/
theorem run_of_consumeAll {input : Text}
    (hrun : session.consumeAll crew input.lines = (.ok (), after))
    (hend : after.phase = .workload) :
    session.run crew input = ⟨.ok after.finish.1, after.finish.2.2, after.finish.2.1⟩ := by
  simp only [run, hrun, close, hend]

/-- The lines of a run that succeeds do not fail and lead to the workload. -/
theorem exists_of_run_eq_ok {input : Text} {summary : Summary}
    (haccepted : (session.run crew input).result = .ok summary) :
    ∃ after, session.consumeAll crew input.lines = (.ok (), after) ∧
      after.phase = .workload := by
  rw [run] at haccepted
  rcases hrun : session.consumeAll crew input.lines with ⟨_ | _, after⟩
  · rw [hrun] at haccepted
    cases haccepted
  · rw [hrun] at haccepted
    cases hend : after.phase with
    | bulkLoad =>
        simp only [close, hend] at haccepted
        cases haccepted
    | workload => exact ⟨after, rfl, hend⟩

/-- The end of a session writes nothing. -/
theorem taken_finish (session : Session σ) :
    session.finish.2.2.taken = session.sink.taken :=
  Sink.taken_flush session.sink

end Session

end PhraseLedger
