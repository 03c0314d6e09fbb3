import PhraseLedger.Dispatch.Workers
import PhraseLedger.Proofs.Commands
import PhraseLedger.Proofs.Effects
import PhraseLedger.Proofs.Feeding
import PhraseLedger.Proofs.Ledger
import PhraseLedger.Proofs.Utf8Lines

/-!
# Inputs that are accepted

An input is accepted if it is UTF-8 and some line of it, the marker, has only commands behind
it.  Any other input ends the run at its first line that offends, or at its end if there is no
such line and no marker.

Main definitions:

- Definition {lit}`Text.Offends`: the lines at which a run fails.
- Definition {lit}`Session.HasTaken`: a session behind lines that do not offend.

Main results:

- Theorem {lit}`Text.no_offence_iff`: the inputs without an offending line but with a marker.
- Theorem {lit}`Session.exists_consumeAll_eq_ok`: lines that do not offend are taken.
- Theorem {lit}`Session.run_of_first_offence`: a run fails at its first offending line.
- Theorem {lit}`Session.run_accepts_exactly`: which inputs are accepted, and how the others
  fail.
-/

namespace PhraseLedger

namespace Text

open Ledger (marker)

/-! ## Offending lines -/

/-- Whether there is a line `i` and it is not UTF-8 or is no command although a marker
stands above it. -/
def Offends (lines : List Text) (i : Nat) : Prop :=
  ∃ line ∈ lines[i]?, line.isUtf8 = false ∨ marker ∈ lines.take i ∧ ¬Command.IsLine line

instance (lines : List Text) (i : Nat) : Decidable (Offends lines i) :=
  inferInstanceAs (Decidable (∃ line ∈ lines[i]?, _))

/-- The line between two parts offends or not, whatever stands below it. -/
theorem offends_length_iff (front : List Text) (line : Text) (back : List Text) :
    Offends (front ++ line :: back) front.length ↔
      line.isUtf8 = false ∨ marker ∈ front ∧ ¬Command.IsLine line := by
  rw [Offends, List.getElem?_append_right (Nat.le_refl _), List.take_left]
  simp

/-- Only lines that are there offend. -/
theorem Offends.lt_length {lines : List Text} {i : Nat} (hoffends : Offends lines i) :
    i < lines.length := by
  rcases hoffends with ⟨line, hline, -⟩
  exact (List.getElem?_eq_some_iff.mp hline).1

/-- More lines below do not change whether a line offends. -/
theorem Offends.append {front : List Text} {i : Nat} (hoffends : Offends front i)
    (back : List Text) : Offends (front ++ back) i := by
  have hi := hoffends.lt_length
  rcases hoffends with ⟨line, hline, hcause⟩
  refine ⟨line, ?_, ?_⟩
  · rwa [List.getElem?_append_left hi]
  · rwa [List.take_append_of_le_length (Nat.le_of_lt hi)]

/-- An input has no offending line but a marker exactly if it is UTF-8 and has only commands
behind its first marker. -/
theorem no_offence_iff (input : Text) :
    ((∀ i, ¬Offends input.bareLines i) ∧ marker ∈ input.bareLines) ↔
      input.isUtf8 = true ∧ ∃ front commands,
        input.bareLines = front ++ marker :: commands ∧ marker ∉ front ∧
          ∀ line ∈ commands, Command.IsLine line := by
  rw [isUtf8_iff_bareLines]
  constructor
  · rintro ⟨hgood, hmarker⟩
    constructor
    · intro line hline
      rcases List.append_of_mem hline with ⟨front, back, hlines⟩
      have hfree := hgood front.length
      rw [hlines, offends_length_iff, not_or, Bool.not_eq_false] at hfree
      exact hfree.1
    · rcases List.eq_append_cons_of_mem hmarker with ⟨front, commands, hlines, hfirst⟩
      refine ⟨front, commands, hlines, hfirst, ?_⟩
      intro line hline
      rcases List.append_of_mem hline with ⟨middle, back, hcommands⟩
      have hfree := hgood (front ++ marker :: middle).length
      have hsplit : input.bareLines = (front ++ marker :: middle) ++ line :: back := by
        rw [hlines, hcommands, List.append_assoc, List.cons_append]
      rw [hsplit, offends_length_iff, not_or] at hfree
      by_contra hcommand
      exact hfree.2 ⟨by simp, hcommand⟩
  · rintro ⟨hutf8, front, commands, hlines, hfirst, hcommands⟩
    refine ⟨?_, by simp [hlines]⟩
    rintro i ⟨line, hline, hbytes | ⟨habove, hcommand⟩⟩
    · rw [hutf8 line (List.mem_of_getElem? hline)] at hbytes
      cases hbytes
    · -- A line below a marker stands behind the first marker.
      have hi : front.length < i := by
        by_contra hle
        rw [hlines, List.take_append_of_le_length (Nat.le_of_not_lt hle)] at habove
        exact hfirst (List.mem_of_mem_take habove)
      refine hcommand (hcommands line ?_)
      rw [hlines, List.getElem?_append_right (Nat.le_of_lt hi)] at hline
      rcases Nat.exists_eq_add_of_lt hi with ⟨distance, rfl⟩
      have hdistance : front.length + distance + 1 - front.length = distance + 1 := by
        omega
      rw [hdistance, List.getElem?_cons_succ] at hline
      exact List.mem_of_getElem? hline

/-- A first offending line, as it stands in the input, and the lines above it. -/
theorem exists_split_of_first_offence {input line : Text} {i : Nat}
    (hline : input.bareLines[i]? = some line) (hoffends : Offends input.bareLines i)
    (hfirst : ∀ j < i, ¬Offends input.bareLines j) :
    ∃ front raw back, input.lines = front ++ raw :: back ∧ front.length = i ∧
      front.map trimLineEnd = input.bareLines.take i ∧ raw.trimLineEnd = line ∧
      (∀ j, ¬Offends (front.map trimLineEnd) j) ∧
      (raw.isUtf8 = false ∨ marker ∈ front.map trimLineEnd ∧ ¬Command.IsLine line) := by
  have habove : ∀ j, ¬Offends (input.bareLines.take i) j := by
    intro j hj
    have hlt : j < i := by
      have hlength := hj.lt_length
      rw [List.length_take] at hlength
      omega
    have hwhole := hj.append (input.bareLines.drop i)
    rw [List.take_append_drop] at hwhole
    exact hfirst j hlt hwhole
  rcases hoffends with ⟨other, hother, hcause⟩
  obtain rfl : line = other := Option.some.inj (hline.symm.trans hother)
  rw [bareLines_eq_map] at habove hcause hline ⊢
  rw [List.getElem?_map, Option.map_eq_some_iff] at hline
  rcases hline with ⟨raw, hraw, rfl⟩
  rcases List.getElem?_eq_some_iff.mp hraw with ⟨hi, hget⟩
  rw [← List.map_take] at habove hcause ⊢
  refine ⟨input.lines.take i, raw, input.lines.drop (i + 1), ?_, ?_, rfl, rfl, habove, ?_⟩
  · rw [← hget, ← List.drop_eq_getElem_cons hi, List.take_append_drop]
  · rw [List.length_take]
    omega
  · rwa [isUtf8_trimLineEnd] at hcause

end Text

namespace Session

open Ledger (marker)

variable {σ : Type}

/-! ## Lines that do not offend -/

/-- Whether a session stands behind lines that it took, none of which offends, its output has no
limits, and it has room for the fragments of all documents. -/
structure HasTaken (session : Session σ) (lines : List Text) : Prop where
  roomy : session.Roomy
  perfect : session.sink = { Sink.unlimited with taken := session.sink.taken }
  lineNumber : session.lineNumber = lines.length
  phase : session.phase = if marker ∈ lines then .workload else .bulkLoad

theorem hasTaken_start {settings : Settings} {workers : σ} {session : Session σ}
    (hstart : Session.start settings (.start workers) Sink.unlimited = .ok session)
    (hroom : Text.hasRoom settings.fragmentWorkers = true) : session.HasTaken [] := by
  have hroomy := roomy_start hstart hroom
  rcases start_eq_ok hstart with ⟨-, rfl⟩
  exact ⟨hroomy, rfl, rfl, rfl⟩

namespace HasTaken

variable {session : Session σ} {lines : List Text}

/-- What the next line comes to. -/
theorem deed_cases (h : session.HasTaken lines) (line : Text) :
    (marker ∈ lines ∧ (Call.consumeLine line).deed session.phase = .ofLine line) ∨
      (marker ∉ lines ∧ line = marker ∧
        (Call.consumeLine line).deed session.phase = .openWorkload) ∨
      (marker ∉ lines ∧ line ≠ marker ∧
        (Call.consumeLine line).deed session.phase = .load line) := by
  rw [h.phase]
  by_cases hopen : marker ∈ lines
  · rw [if_pos hopen]
    exact .inl ⟨hopen, rfl⟩
  · rw [if_neg hopen]
    by_cases hline : line = marker
    · exact .inr (.inl ⟨hopen, hline, if_pos hline⟩)
    · exact .inr (.inr ⟨hopen, hline, if_neg hline⟩)

/-- A line that does not offend is taken. -/
theorem step (h : session.HasTaken lines) (crew : Crew σ) {line : Text}
    (hline : marker ∈ lines → Command.IsLine line) :
    ∃ next, session.perform crew (.consumeLine line) = (.ok (), next) ∧
      next.HasTaken (lines ++ [line]) := by
  have hresult := (perform_does h.roomy crew (.consumeLine line)).result_of_eq_unlimited h.perfect
  have hnext := perform_snd h.roomy crew (.consumeLine line)
  have hdeed := h.deed_cases line
  generalize (Call.consumeLine line).deed session.phase = deed at hresult hnext hdeed
  have hfacts : deed.verdict session.lineNumber = .ok () ∧ deed ≠ .flush ∧
      deed.phaseAfter session.phase =
        if marker ∈ lines ++ [line] then .workload else .bulkLoad := by
    rcases hdeed with ⟨hopen, rfl⟩ | ⟨hopen, rfl, rfl⟩ | ⟨hopen, hload, rfl⟩
    · rcases (Command.exists_parse_iff line).mpr (hline hopen) with ⟨command, hparse⟩
      simp [Deed.ofLine, hparse, Deed.verdict, Deed.phaseAfter, h.phase, hopen]
    · simp [Deed.verdict, Deed.phaseAfter]
    · simp [Deed.verdict, Deed.phaseAfter, h.phase, hopen, Ne.symm hload]
  rcases hfacts with ⟨hverdict, hflush, hphase⟩
  refine ⟨session.after crew deed, Prod.ext (hresult.trans hverdict) hnext, ?_⟩
  constructor
  · exact hnext ▸ h.roomy.perform crew (.consumeLine line)
  · simp only [Session.after, sinkAfter_of_eq_unlimited h.perfect]
  · simp only [Session.after, book_lineNumber session hflush, h.lineNumber,
      List.length_append, List.length_singleton]
  · simp only [Session.after, book_phase, hphase]

/-- A line behind a marker that is no command fails and writes nothing. -/
theorem fails (h : session.HasTaken lines) (crew : Crew σ) {line : Text}
    (hopen : marker ∈ lines) (hline : ¬Command.IsLine line) :
    ∃ fault, Command.parse line = .error fault ∧
      (session.perform crew (.consumeLine line)).1 =
        .error (.error (.malformedLine (lines.length + 1) fault.reason)) ∧
      (session.perform crew (.consumeLine line)).2.sink = session.sink := by
  rcases Command.exists_fault hline with ⟨fault, hparse⟩
  have hdeed : (Call.consumeLine line).deed session.phase = .malformed fault := by
    rw [h.phase, if_pos hopen]
    simp only [Call.deed, Deed.ofLine, hparse]
  refine ⟨fault, hparse, ?_, ?_⟩
  · rw [(perform_does h.roomy crew (.consumeLine line)).result_of_eq_unlimited h.perfect, hdeed,
      Deed.verdict, h.lineNumber]
  · rw [perform_snd h.roomy, hdeed]
    simp [Session.after, sinkAfter, sends, Deed.isFlush]

end HasTaken

/-! ## Runs -/

/-- Lines none of which offends are taken. -/
theorem exists_consumeAll_eq_ok {session : Session σ} (h : session.HasTaken []) (crew : Crew σ)
    {lines : List Text} (hgood : ∀ i, ¬Text.Offends (lines.map Text.trimLineEnd) i) :
    ∃ after, session.consumeAll crew lines = (.ok (), after) ∧
      after.HasTaken (lines.map Text.trimLineEnd) := by
  induction lines using List.reverseRecOn with
  | nil => exact ⟨session, rfl, h⟩
  | append_singleton lines line ih =>
      rw [List.map_append, List.map_singleton] at hgood ⊢
      rcases ih fun i hoffends => hgood i (hoffends.append _) with ⟨before, hbefore, htaken⟩
      have hlast := hgood (lines.map Text.trimLineEnd).length
      rw [Text.offends_length_iff, Text.isUtf8_trimLineEnd, not_or, Bool.not_eq_false,
        not_and, not_not] at hlast
      rcases htaken.step crew hlast.2 with ⟨after, hafter, hnext⟩
      refine ⟨after, ?_, hnext⟩
      have hraw : before.consumeRaw crew line = (.ok (), after) :=
        (consumeRaw_of_isUtf8 hlast.1).trans hafter
      rw [consumeAll_append, hbefore]
      simp only [consumeAll, hraw]

/-- A run fails at its first offending line.  What was written is what the lines above it
write. -/
theorem run_of_first_offence {session : Session σ} (h : session.HasTaken []) (crew : Crew σ)
    {input line : Text} {i : Nat} (hline : input.bareLines[i]? = some line)
    (hoffends : Text.Offends input.bareLines i)
    (hfirst : ∀ j < i, ¬Text.Offends input.bareLines j) :
    (line.isUtf8 = false →
        (session.run crew input).result =
          .error (.error (.io "reading input" notUtf8Message))) ∧
      (line.isUtf8 = true → ∃ fault, Command.parse line = .error fault ∧
        (session.run crew input).result =
          .error (.error (.malformedLine (i + 1) fault.reason))) ∧
      (session.run crew input).sink.taken =
        (session.performAll crew ((input.bareLines.take i).map .consumeLine)).2.sink.taken := by
  rcases Text.exists_split_of_first_offence hline hoffends hfirst with
    ⟨front, raw, back, hlines, rfl, habove, rfl, hgood, hcause⟩
  rcases exists_consumeAll_eq_ok h crew hgood with ⟨before, hbefore, htaken⟩
  have hcalls : (session.performAll crew
      ((input.bareLines.take front.length).map .consumeLine)).2 = before := by
    rw [← habove, List.map_map]
    exact performAll_of_consumeAll hbefore
  rw [hcalls, run, hlines, consumeAll_append, hbefore, Text.isUtf8_trimLineEnd]
  simp only [consumeAll]
  cases hutf8 : raw.isUtf8 with
  | false =>
      have hraw : before.consumeRaw crew raw =
          (.error (.error (.io "reading input" notUtf8Message)), before) := by
        simp [consumeRaw, hutf8]
      simp [hraw]
  | true =>
      rw [hutf8] at hcause
      rcases hcause with hbytes | ⟨hopen, hcommand⟩
      · cases hbytes
      · rcases htaken.fails crew hopen hcommand with ⟨fault, hparse, hresult, hsink⟩
        rw [List.length_map] at hresult
        rw [consumeRaw_of_isUtf8 hutf8, Call.ofLine]
        rcases hcall : before.perform crew (.consumeLine raw.trimLineEnd) with ⟨result, last⟩
        rw [hcall] at hresult hsink
        simp only at hresult hsink
        simp [hresult, hsink, hparse]

/-- A run without offending lines that does not come to a marker fails at its end. -/
theorem run_of_no_marker {session : Session σ} (h : session.HasTaken []) (crew : Crew σ)
    {input : Text} (hgood : ∀ i, ¬Text.Offends input.bareLines i)
    (hmarker : marker ∉ input.bareLines) :
    (session.run crew input).result =
        .error (.error (.unexpectedEnd "input ended before the 'S' marker")) ∧
      (session.run crew input).sink.taken =
        (session.performAll crew (input.bareLines.map .consumeLine)).2.sink.taken := by
  rw [Text.bareLines_eq_map] at hgood hmarker ⊢
  rcases exists_consumeAll_eq_ok h crew hgood with ⟨after, hafter, htaken⟩
  have hcalls : (session.performAll crew
      ((input.lines.map Text.trimLineEnd).map .consumeLine)).2 = after := by
    rw [List.map_map]
    exact performAll_of_consumeAll hafter
  have hphase : after.phase = .bulkLoad := by
    rw [htaken.phase, if_neg hmarker]
  rw [hcalls, run, hafter]
  simp only [close, hphase, and_self]

/-- A run without offending lines that comes to a marker succeeds. -/
theorem run_of_marker {session : Session σ} (h : session.HasTaken []) (crew : Crew σ)
    {input : Text} (hgood : ∀ i, ¬Text.Offends input.bareLines i)
    (hmarker : marker ∈ input.bareLines) :
    ∃ summary, (session.run crew input).result = .ok summary := by
  rw [Text.bareLines_eq_map] at hgood hmarker
  rcases exists_consumeAll_eq_ok h crew hgood with ⟨after, hafter, htaken⟩
  have hphase : after.phase = .workload := by
    rw [htaken.phase, if_pos hmarker]
  rw [run_of_consumeAll hafter hphase]
  exact ⟨_, rfl⟩

/-- A new session with room for the fragments of all documents accepts exactly the UTF-8 inputs
that have a marker and only commands behind the first one.  Another input fails at its first line
that is not UTF-8 or stands behind a marker without being a command, or at its end, and what was
written then is what the lines above write. -/
theorem run_accepts_exactly {settings : Settings} {workers : σ} {session : Session σ}
    (hstart : Session.start settings (.start workers) Sink.unlimited = .ok session)
    (hroom : Text.hasRoom settings.fragmentWorkers = true) (crew : Crew σ) (input : Text) :
    ((∃ summary, (session.run crew input).result = .ok summary) ↔
      input.isUtf8 = true ∧ ∃ front commands,
        input.bareLines = front ++ marker :: commands ∧ marker ∉ front ∧
          ∀ line ∈ commands, Command.IsLine line) ∧
    (∀ i line, input.bareLines[i]? = some line → Text.Offends input.bareLines i →
      (∀ j < i, ¬Text.Offends input.bareLines j) →
      (line.isUtf8 = false →
          (session.run crew input).result =
            .error (.error (.io "reading input" notUtf8Message))) ∧
        (line.isUtf8 = true → ∃ fault, Command.parse line = .error fault ∧
          (session.run crew input).result =
            .error (.error (.malformedLine (i + 1) fault.reason))) ∧
        (session.run crew input).sink.taken =
          (session.performAll crew
            ((input.bareLines.take i).map .consumeLine)).2.sink.taken) ∧
    ((∀ i, ¬Text.Offends input.bareLines i) → marker ∉ input.bareLines →
      (session.run crew input).result =
          .error (.error (.unexpectedEnd "input ended before the 'S' marker")) ∧
        (session.run crew input).sink.taken =
          (session.performAll crew (input.bareLines.map .consumeLine)).2.sink.taken) := by
  have h := hasTaken_start hstart hroom
  refine ⟨?_, fun i line => run_of_first_offence h crew, run_of_no_marker h crew⟩
  rw [← Text.no_offence_iff]
  constructor
  · rintro ⟨summary, haccepted⟩
    have hgood : ∀ i, ¬Text.Offends input.bareLines i := by
      intro i
      induction i using Nat.strongRecOn with
      | ind i ih =>
          -- If the lines above do not offend, the run fails at this one.
          intro hoffends
          rcases hoffends with ⟨line, hline, hcause⟩
          rcases run_of_first_offence h crew hline ⟨line, hline, hcause⟩ ih with
            ⟨hbytes, hcommand, -⟩
          rw [haccepted] at hbytes hcommand
          cases hutf8 : line.isUtf8 with
          | false => cases hbytes hutf8
          | true =>
              rcases hcommand hutf8 with ⟨fault, -, hresult⟩
              cases hresult
    refine ⟨hgood, ?_⟩
    by_contra hmarker
    have hend := (run_of_no_marker h crew hgood hmarker).1
    rw [haccepted] at hend
    cases hend
  · rintro ⟨hgood, hmarker⟩
    exact run_of_marker h crew hgood hmarker

/-- An input with a blank line in front of the marker is accepted.  Another one fails at a
second marker, a third one at a line that is not UTF-8, and the last one at its end. -/
theorem run_accepts_exactly_four_inputs :
    let text := Text.ofString
    let accepted := text "a\n\nS\r\nQ a\nF\nD S\n"
    let malformed := text "a\n\nS\nQ a\nF\nS\nQ \n"
    let broken := text "S\nQ a\nF\n" ++ [65, 32, 255, 10] ++ text "S\n"
    let endless := text "F\n s\nS "
    ∃ session,
      Session.start ⟨2, 2, 2, 1⟩ (.start (Workers.idle 2 Workers.prompt)) Sink.unlimited =
          .ok session ∧
        Text.hasRoom 2 = true ∧
        (∃ summary, (session.run Workers.crew accepted).result = .ok summary) ∧
        Text.Offends malformed.bareLines 5 ∧
        (∃ fault, Command.parse marker = .error fault ∧
          (session.run Workers.crew malformed).result =
            .error (.error (.malformedLine 6 fault.reason))) ∧
        (session.run Workers.crew malformed).sink.taken = text "R\na\n" ∧
        Text.Offends broken.bareLines 3 ∧
        (session.run Workers.crew broken).result =
          .error (.error (.io "reading input" notUtf8Message)) ∧
        (session.run Workers.crew broken).sink.taken = text "R\n-1\n" ∧
        (session.run Workers.crew endless).result =
          .error (.error (.unexpectedEnd "input ended before the 'S' marker")) := by
  intro text accepted malformed broken endless
  let session : Session Workers :=
    ⟨⟨2, 2, 2, 1⟩, .empty, .start (Workers.idle 2 Workers.prompt), Sink.unlimited, #[], 0, 0,
      .bulkLoad, .zero, .new⟩
  have hstart : Session.start ⟨2, 2, 2, 1⟩ (.start (Workers.idle 2 Workers.prompt))
      Sink.unlimited = .ok session := rfl
  have hroom : Text.hasRoom 2 = true := by decide
  have haccepted := (run_accepts_exactly hstart hroom Workers.crew accepted).1.mpr
    ⟨by decide +kernel, [text "a", []], [text "Q a", text "F", text "D S"], by decide +kernel,
      by decide +kernel, by decide +kernel⟩
  have hmalformed : Text.Offends malformed.bareLines 5 := by decide +kernel
  rcases (run_accepts_exactly hstart hroom Workers.crew malformed).2.1 5 marker (by decide +kernel)
    hmalformed (by decide +kernel) with ⟨-, hfault, hwritten⟩
  have hbroken : Text.Offends broken.bareLines 3 := by decide +kernel
  rcases (run_accepts_exactly hstart hroom Workers.crew broken).2.1 3 [65, 32, 255]
    (by decide +kernel) hbroken (by decide +kernel) with ⟨hbytes, -, hkept⟩
  have hgood : ∀ i, ¬Text.Offends endless.bareLines i := by
    intro i hoffends
    have hlines : ∀ j < endless.bareLines.length, ¬Text.Offends endless.bareLines j := by
      decide +kernel
    exact hlines i hoffends.lt_length hoffends
  refine ⟨session, hstart, hroom, haccepted, hmalformed, hfault (by decide +kernel),
    hwritten.trans ?_, hbroken, hbytes (by decide +kernel), hkept.trans ?_,
    ((run_accepts_exactly hstart hroom Workers.crew endless).2.2 hgood (by decide +kernel)).1⟩
  · decide +kernel
  · decide +kernel

/-- Valid settings ask for `2 ^ 60` fragments of each document, so a session aborts its thread at
the first flush, although its input has a marker and only commands behind it. -/
theorem run_aborts_without_room :
    let text := Text.ofString
    let input := text "b\nS\nQ a b\nF\n"
    input.isUtf8 = true ∧ input.bareLines = [text "b"] ++ marker :: [text "Q a b", text "F"] ∧
      (∀ line ∈ [text "Q a b", text "F"], Command.IsLine line) ∧
      ∃ session,
        Session.start ⟨1, 1, 2 ^ 60, 0⟩ (.start (Workers.idle 1 Workers.prompt))
            Sink.unlimited = .ok session ∧
          (session.run Workers.crew input).result = .error .abort ∧
          (session.run Workers.crew input).sink.taken = text "R\n" := by
  intro text input
  refine ⟨by decide +kernel, by decide +kernel, by decide +kernel, _, rfl, ?_⟩
  decide +kernel

end Session

end PhraseLedger
