import PhraseLedger.Proofs.Crews
import PhraseLedger.Proofs.Utf8Lines

/-!
# The ends of lines

Lines can be written with line feeds, or with carriage returns in front of them, and the last line
can go without either.  A session sees the lines without their ends, so a run comes to the same
however its lines are written.

Main definitions:

- Definition {lit}`Text.Writes`: the texts that write some lines.

Main results:

- Theorem {lit}`Text.bareLines_of_writes`: lines are read as they were written.
- Theorem {lit}`Session.run_congr`: a run depends on the lines without their ends only.
- Theorem {lit}`Session.run_of_writes`: runs over the same lines come to the same.
-/

namespace PhraseLedger

namespace Text

/-! ## Writing lines -/

/-- Whether a text writes some lines: behind every line comes a line feed, perhaps with a carriage
return in front of it, or nothing behind the last line if this is not empty. -/
inductive Writes : List Text → Text → Prop
  | nil : Writes [] []
  | feed (line : Text) {lines : List Text} {input : Text} (hrest : Writes lines input) :
      Writes (line :: lines) (line ++ lineFeed :: input)
  | returnFeed (line : Text) {lines : List Text} {input : Text} (hrest : Writes lines input) :
      Writes (line :: lines) (line ++ carriageReturn :: lineFeed :: input)
  | last {line : Text} (hnonempty : line ≠ []) : Writes [line] line

theorem bareLines_append_lineFeed {piece : Text} (hfree : lineFeed ∉ piece) (rest : Text) :
    bareLines (piece ++ lineFeed :: rest) = chop carriageReturn piece :: bareLines rest := by
  rw [bareLines, linePieces_append_lineFeed hfree, List.map_cons, bareLines]

/-- Lines are read as they were written, if their ends can be told from them. -/
theorem bareLines_of_writes {lines : List Text} {input : Text}
    (hplain : ∀ line ∈ lines, lineFeed ∉ line ∧ line.getLast? ≠ some carriageReturn)
    (hwrites : Writes lines input) : input.bareLines = lines := by
  induction hwrites with
  | nil => rfl
  | feed line hrest ih =>
      rcases List.forall_mem_cons.mp hplain with ⟨⟨hfree, hend⟩, hothers⟩
      rw [bareLines_append_lineFeed hfree, ih hothers, chop, if_neg hend]
  | @returnFeed line lines input hrest ih =>
      rcases List.forall_mem_cons.mp hplain with ⟨⟨hfree, -⟩, hothers⟩
      -- The carriage return counts as the last byte of the piece in front of the line feed.
      have hdistinct : lineFeed ≠ carriageReturn := by decide
      have hpiece : lineFeed ∉ line ++ [carriageReturn] := by
        simp [hfree, hdistinct]
      have hinput : line ++ carriageReturn :: lineFeed :: input =
          (line ++ [carriageReturn]) ++ lineFeed :: input := by
        rw [List.append_assoc, List.singleton_append]
      rw [hinput, bareLines_append_lineFeed hpiece, ih hothers, chop, List.getLast?_concat,
        if_pos rfl, List.dropLast_concat]
  | @last line hnonempty =>
      rcases hplain line List.mem_cons_self with ⟨hfree, hend⟩
      rw [bareLines, linePieces_piece hfree, if_neg hnonempty, List.map_singleton, chop,
        if_neg hend]

end Text

namespace Session

variable {σ τ : Type}

/-! ## Reading lines -/

/-- A line is taken in the same way whatever its end. -/
theorem consumeRaw_congr (crew : Crew σ) (session : Session σ) {first second : Text}
    (hlines : first.trimLineEnd = second.trimLineEnd) :
    session.consumeRaw crew first = session.consumeRaw crew second := by
  rw [consumeRaw, consumeRaw, ← Text.isUtf8_trimLineEnd first, hlines,
    Text.isUtf8_trimLineEnd second]

/-- Lines are taken in the same way whatever their ends. -/
theorem consumeAll_congr (crew : Crew σ) (session : Session σ) {first second : List Text}
    (hlines : first.map Text.trimLineEnd = second.map Text.trimLineEnd) :
    session.consumeAll crew first = session.consumeAll crew second := by
  induction first generalizing session second with
  | nil =>
      rw [List.map_eq_nil_iff.mp hlines.symm]
  | cons line rest ih =>
      rcases List.map_eq_cons_iff.mp hlines.symm with ⟨other, others, rfl, hline, hrest⟩
      rw [consumeAll, consumeAll, consumeRaw_congr crew session hline.symm]
      rcases session.consumeRaw crew other with ⟨_ | _, next⟩
      · rfl
      · exact ih next hrest.symm

/-- A run depends on the lines of its input without their ends only. -/
theorem run_congr (crew : Crew σ) (session : Session σ) {first second : Text}
    (hlines : first.bareLines = second.bareLines) :
    session.run crew first = session.run crew second := by
  rw [Text.bareLines_eq_map, Text.bareLines_eq_map] at hlines
  rw [run, run, consumeAll_congr crew session hlines]

/-- However lines are written, a run over them comes to the same result, the same output and the
same log: the same one if the same crew runs the jobs, and another crew only counts them in other
places, if there is room for the fragments of all documents. -/
theorem run_of_writes {lines : List Text} {first second : Text}
    (hplain : ∀ line ∈ lines,
      Text.lineFeed ∉ line ∧ line.getLast? ≠ some Text.carriageReturn)
    (hfirst : Text.Writes lines first) (hsecond : Text.Writes lines second)
    {settings : Settings} {sink : Sink} {workers : σ} {others : τ} {session : Session σ}
    {other : Session τ} (hstart : Session.start settings (.start workers) sink = .ok session)
    (hother : Session.start settings (.start others) sink = .ok other)
    (crew : Crew σ) (otherCrew : Crew τ) :
    session.run crew first = session.run crew second ∧
      (Text.hasRoom settings.fragmentWorkers = true →
        (session.run crew first).pooled = (other.run otherCrew second).pooled) := by
  have hlines : first.bareLines = second.bareLines := by
    rw [Text.bareLines_of_writes hplain hfirst, Text.bareLines_of_writes hplain hsecond]
  have hsame := run_congr crew session hlines
  refine ⟨hsame, fun hroom => ?_⟩
  rw [hsame]
  exact (twins_start hstart hother hroom).run crew otherCrew second

/-- The ends of the lines are mixed in the second input, whose last line has none.  The crews count
the jobs in different places, as the second one has lost its workers. -/
theorem run_of_writes_mixed_ends :
    let text := Text.ofString
    let lines := [text "a b", [], text "S", text "Q a b", text "Q b a b", text "F"]
    let first := text "a b\n\nS\nQ a b\nQ b a b\nF\n"
    let second := text "a b\r\n\r\nS\r\nQ a b\nQ b a b\r\nF"
    let idle := Workers.idle 2 Workers.prompt
    ∃ session other,
      Session.start ⟨2, 2, 2, 1⟩ (.start idle) .unlimited = .ok session ∧
        Session.start ⟨2, 2, 2, 1⟩ (.start ((idle.bury 0).bury 1)) .unlimited = .ok other ∧
        Text.Writes lines first ∧ Text.Writes lines second ∧ Text.hasRoom 2 = true ∧
        session.run Workers.crew first = session.run Workers.crew second ∧
        (session.run Workers.crew first).pooled = (other.run Workers.crew second).pooled ∧
        (session.run Workers.crew first).result ≠ (other.run Workers.crew second).result ∧
        (session.run Workers.crew first).sink.taken = text "R\na b\na b\n" := by
  intro text lines first second idle
  let session : Session Workers :=
    ⟨⟨2, 2, 2, 1⟩, .empty, .start idle, .unlimited, #[], 0, 0, .bulkLoad, .zero, .new⟩
  let other : Session Workers := { session with pool := .start ((idle.bury 0).bury 1) }
  have hplain : ∀ line ∈ lines,
      Text.lineFeed ∉ line ∧ line.getLast? ≠ some Text.carriageReturn := by
    decide +kernel
  have hfirst : Text.Writes lines first :=
    .feed _ (.feed _ (.feed _ (.feed _ (.feed _ (.feed _ .nil)))))
  have hlast : text "F" ≠ [] := by decide +kernel
  have hsecond : Text.Writes lines second :=
    .returnFeed _ (.returnFeed _ (.returnFeed _ (.feed _ (.returnFeed _ (.last hlast)))))
  have hstart : Session.start ⟨2, 2, 2, 1⟩ (.start idle) .unlimited = .ok session := rfl
  have hother : Session.start ⟨2, 2, 2, 1⟩ (.start ((idle.bury 0).bury 1)) .unlimited =
      .ok other := rfl
  obtain ⟨hsame, hpooled⟩ :=
    run_of_writes hplain hfirst hsecond hstart hother Workers.crew Workers.crew
  have hroom : Text.hasRoom 2 = true := by decide
  exact ⟨session, other, hstart, hother, hfirst, hsecond, hroom, hsame, hpooled hroom,
    by decide +kernel, by decide +kernel⟩

end Session

end PhraseLedger
