import PhraseLedger.Proofs.Dispatch
import PhraseLedger.Proofs.Firsts
import Mathlib.Data.List.Forall2

/-!
# Answers read back

The answer lines of matches whose texts have neither bars nor ends of lines can be read back: the
lines are between the ends of lines, and the texts of a line between its bars.  Only a query without
matches cannot be told from one whose only match is the text `-1`.

Main definitions:

- Definition {lit}`Match.readLines`: the texts of each line of an answer.
- Definition {lit}`Match.Alike`: when two lists of matches have the same answer line.

Main results:

- Theorem {lit}`Match.readLines_flatMap`: what is read from answer lines.
- Theorem {lit}`Match.shown_eq_shown_iff`: which matches show the same texts.
- Theorem {lit}`Query.plain_found`: which documents have matches that can be read back.
- Theorem {lit}`Batch.lines_read_back`: answer lines, and with them the answers of a batch, tell the
  texts of the matches.
-/

namespace PhraseLedger

namespace Match

/-! ## Reading answer lines -/

/-- The texts that the answer line of a query shows. -/
def shown : List Match → List Text
  | [] => [noMatch]
  | found => found.map term

/-- The texts of each line of an answer. -/
def readLines (answer : Text) : List (List Text) :=
  (answer.splitOn newline).dropLast.map (·.splitOn bar)

/-- Whether no text of some matches has a bar or an end of a line. -/
def Plain (found : List Match) : Prop :=
  ∀ m ∈ found, bar ∉ m.term ∧ newline ∉ m.term

/-- Whether two lists of matches have the same texts, or one of them is empty and the other one has
`-1` as its only text. -/
def Alike (first second : List Match) : Prop :=
  first.map term = second.map term ∨
    first = [] ∧ second.map term = [noMatch] ∨
    first.map term = [noMatch] ∧ second = []

instance (found : List Match) : Decidable (Plain found) :=
  inferInstanceAs (Decidable (∀ m ∈ found, _))

instance (first second : List Match) : Decidable (Alike first second) :=
  inferInstanceAs (Decidable (_ ∨ _))

theorem shown_nil : shown [] = [noMatch] := rfl

theorem shown_cons (first : Match) (rest : List Match) :
    shown (first :: rest) = (first :: rest).map term := rfl

theorem shown_ne_nil (found : List Match) : shown found ≠ [] := by
  cases found <;> simp [shown]

/-- An answer line is made of the texts that it shows. -/
theorem resultLine_eq_shown (found : List Match) :
    resultLine found = [bar].intercalate (shown found) ++ [newline] := by
  cases found with
  | nil => rw [shown, List.intercalate_singleton, resultLine]
  | cons first rest => rfl

/-- Matches show the same texts exactly if they are alike. -/
theorem shown_eq_shown_iff (first second : List Match) :
    shown first = shown second ↔ Alike first second := by
  rw [Alike]
  cases first with
  | nil =>
      cases second with
      | nil => simp
      | cons m rest => simp [shown_nil, shown_cons, eq_comm (a := [noMatch])]
  | cons m rest =>
      cases second with
      | nil => simp [shown_nil, shown_cons]
      | cons other others => simp [shown_cons]

/-- The texts that are shown for plain matches have neither bars nor ends of lines. -/
theorem not_mem_of_mem_shown {found : List Match} (hplain : Plain found) {text : Text}
    (htext : text ∈ shown found) : bar ∉ text ∧ newline ∉ text := by
  cases found with
  | nil =>
      rw [shown, List.mem_singleton] at htext
      rw [htext]
      decide
  | cons first rest =>
      rw [shown_cons] at htext
      rcases List.mem_map.mp htext with ⟨m, hm, rfl⟩
      exact hplain m hm

/-- Texts with bars between them have no byte other than the bar that none of them has. -/
theorem not_mem_intercalate {byte : UInt8} (hbar : byte ≠ bar) {texts : List Text}
    (htexts : ∀ text ∈ texts, byte ∉ text) : byte ∉ [bar].intercalate texts := by
  induction texts with
  | nil => simp
  | cons first rest ih =>
      rcases List.forall_mem_cons.mp htexts with ⟨hfirst, hrest⟩
      by_cases hlast : rest = []
      · rw [hlast, List.intercalate_singleton]
        exact hfirst
      · rw [List.intercalate_cons_of_ne_nil hlast]
        simp [hfirst, hbar, ih hrest]

/-- What is read from a line in front of other lines. -/
theorem readLines_append {found : List Match} (hplain : Plain found) (rest : Text) :
    readLines (resultLine found ++ rest) = shown found :: readLines rest := by
  have hline : newline ∉ [bar].intercalate (shown found) :=
    not_mem_intercalate (by decide) fun text htext => (not_mem_of_mem_shown hplain htext).2
  have htexts : ([bar].intercalate (shown found)).splitOn bar = shown found :=
    List.splitOn_intercalate bar (fun text htext => (not_mem_of_mem_shown hplain htext).1)
      (shown_ne_nil found)
  rw [readLines, resultLine_eq_shown, List.append_assoc, List.singleton_append,
    List.splitOn_append_cons_self_of_not_mem hline,
    List.dropLast_cons_of_ne_nil (List.splitOn_ne_nil newline rest), List.map_cons, htexts,
    readLines]

/-- From answer lines, the texts that they show are read. -/
theorem readLines_flatMap {lists : List (List Match)} (hplain : ∀ found ∈ lists, Plain found) :
    readLines (lists.flatMap resultLine) = lists.map shown := by
  induction lists with
  | nil => rfl
  | cons found lists ih =>
      rcases List.forall_mem_cons.mp hplain with ⟨hfound, hlists⟩
      rw [List.flatMap_cons, readLines_append hfound, ih hlists, List.map_cons]

/-- Lists show the same texts, line by line, exactly if they are alike, one by one. -/
theorem map_shown_eq_iff (xs ys : List (List Match)) :
    xs.map shown = ys.map shown ↔ List.Forall₂ Alike xs ys := by
  rw [← List.forall₂_eq_eq_eq, List.forall₂_map_left_iff, List.forall₂_map_right_iff]
  simp only [shown_eq_shown_iff]

/-- Plain matches have the same answer lines exactly if they are alike. -/
theorem flatMap_resultLine_eq_iff {xs ys : List (List Match)}
    (hxs : ∀ found ∈ xs, Plain found) (hys : ∀ found ∈ ys, Plain found) :
    xs.flatMap resultLine = ys.flatMap resultLine ↔ List.Forall₂ Alike xs ys := by
  rw [← map_shown_eq_iff]
  constructor
  · intro hlines
    rw [← readLines_flatMap hxs, hlines, readLines_flatMap hys]
  · intro hshown
    have hlines : ∀ lists : List (List Match), lists.flatMap resultLine =
        (lists.map shown).flatMap fun texts => [bar].intercalate texts ++ [newline] := by
      intro lists
      rw [List.flatMap_map]
      exact List.flatMap_congr fun found _ => resultLine_eq_shown found
    rw [hlines, hlines, hshown]

end Match

namespace Query

/-! ## Matches of queries -/

/-- The distinct matches of one scan of the document of a query. -/
def found (index : Index) (query : Query) : List Match :=
  Match.distinct (index.matchesIn query.document 0 query.opIndex)

/-- In a document with neither bars nor ends of lines, matches have neither. -/
theorem plain_found (index : Index) {query : Query} (hbar : Match.bar ∉ query.document)
    (hnewline : Match.newline ∉ query.document) : Match.Plain (query.found index) := by
  intro m hm
  rcases (index.mem_matchesIn_iff _ _ _ m).mp ((Match.distinct_sublist _).subset hm) with
    ⟨-, start, ⟨first, last, -, -, -, -, hterm⟩, -⟩
  have hinside : ∀ byte ∈ m.term, byte ∈ query.document := by
    rw [← hterm]
    intro byte hbyte
    exact List.mem_of_mem_drop (List.mem_of_mem_take hbyte)
  exact ⟨fun hmem => hbar (hinside _ hmem), fun hmem => hnewline (hinside _ hmem)⟩

end Query

namespace Batch

/-! ## Answers of batches -/

variable {σ : Type}

/-- A batch that is answered without a failure leaves the lines of its queries. -/
theorem taken_of_answerTo_eq_ok (crew : Crew σ) (index : Index) {settings : Settings}
    (hparallelism : 1 ≤ settings.parallelism) (queries : List Query) (pool : Pool σ)
    (sink : Sink) (hok : (answerTo crew index settings queries pool sink).1 = .ok ()) :
    (answerTo crew index settings queries pool sink).2.2.taken =
      sink.taken ++ queries.flatMap (Query.line index) := by
  rcases exists_answerTo_send crew index hparallelism
    (fits_of_answerTo_eq_ok hparallelism hok) pool sink with ⟨context, hanswer⟩
  rw [hanswer] at hok ⊢
  by_cases hempty : queries = []
  · rw [if_pos hempty, hempty, List.flatMap_nil, List.append_nil]
  · rw [if_neg hempty] at hok ⊢
    rcases hsend : sink.send (queries.flatMap (Query.line index)) with ⟨_ | _, after⟩
    · rw [hsend] at hok
      cases hok
    · exact Sink.taken_of_send_eq_ok hsend

/-- From the answer of a batch with plain matches, the texts of each query are read. -/
theorem exists_readLines_answerTo (crew : Crew σ) (index : Index) {settings : Settings}
    (hparallelism : 1 ≤ settings.parallelism) {queries : List Query}
    (hplain : ∀ query ∈ queries, Match.Plain (query.found index)) (pool : Pool σ) (sink : Sink)
    (hok : (answerTo crew index settings queries pool sink).1 = .ok ()) :
    ∃ answer, (answerTo crew index settings queries pool sink).2.2.taken = sink.taken ++ answer ∧
      Match.readLines answer = queries.map fun query => Match.shown (query.found index) := by
  refine ⟨queries.flatMap (Query.line index),
    taken_of_answerTo_eq_ok crew index hparallelism queries pool sink hok, ?_⟩
  have hlists : ∀ found ∈ queries.map (Query.found index), Match.Plain found :=
    List.forall_mem_map.mpr hplain
  have hread := Match.readLines_flatMap hlists
  rw [List.flatMap_map, List.map_map] at hread
  exact hread

/-- Plain matches can be read back from their answer lines: from the lines of several lists, the
texts that each shows are read, and so the lines are the same only for as many lists that are alike,
one by one.  Likewise, what is written for a batch tells what each of its queries shows. -/
theorem lines_read_back {xs ys : List (List Match)} (hxs : ∀ found ∈ xs, Match.Plain found)
    (hys : ∀ found ∈ ys, Match.Plain found) :
    Match.readLines (xs.flatMap Match.resultLine) = xs.map Match.shown ∧
    (xs.flatMap Match.resultLine = ys.flatMap Match.resultLine ↔
      List.Forall₂ Match.Alike xs ys) ∧
    ∀ (σ : Type) (crew : Crew σ) (index : Index) (settings : Settings) (queries : List Query)
      (pool : Pool σ) (sink : Sink), 1 ≤ settings.parallelism →
      (∀ query ∈ queries, Match.Plain (query.found index)) →
      (answerTo crew index settings queries pool sink).1 = .ok () →
      ∃ answer, (answerTo crew index settings queries pool sink).2.2.taken =
          sink.taken ++ answer ∧
        Match.readLines answer = queries.map fun query => Match.shown (query.found index) :=
  ⟨Match.readLines_flatMap hxs, Match.flatMap_resultLine_eq_iff hxs hys,
    fun _ crew index _ _ pool sink hparallelism hplain hok =>
      exists_readLines_answerTo crew index hparallelism hplain pool sink hok⟩

/-- A query without matches and one that matches `-1` only have the same line.  The lines of a
batch of two queries, the second of them without matches, tell which texts they show. -/
theorem lines_read_back_no_match :
    let xs : List (List Match) := [[], [⟨[97], 0⟩, ⟨[98], 2⟩]]
    let ys : List (List Match) := [[⟨Match.noMatch, 5⟩], [⟨[97], 7⟩, ⟨[98], 9⟩]]
    let settings : Settings := ⟨2, 2, 2, 1⟩
    let index := (Index.empty.add [97] 0).add [98] 0
    let queries : List Query := [⟨[97, 32, 98, 32, 97], 1⟩, ⟨[99], 1⟩]
    let pool := Pool.start (Workers.idle 2 Workers.prompt)
    let answered := answerTo Workers.crew index settings queries pool Sink.unlimited
    (∀ found ∈ xs, Match.Plain found) ∧ (∀ found ∈ ys, Match.Plain found) ∧
      xs.flatMap Match.resultLine = ys.flatMap Match.resultLine ∧
      1 ≤ settings.parallelism ∧ (∀ query ∈ queries, Match.Plain (query.found index)) ∧
      answered.1 = .ok () ∧
      Match.readLines answered.2.2.taken = [[[97], [98]], [Match.noMatch]] := by
  intro xs ys settings index queries pool answered
  have hxs : ∀ found ∈ xs, Match.Plain found := by decide
  have hys : ∀ found ∈ ys, Match.Plain found := by decide
  have halike : List.Forall₂ Match.Alike xs ys := .cons (by decide) (.cons (by decide) .nil)
  have hparallelism : 1 ≤ settings.parallelism := by decide
  have hdocuments : ∀ query ∈ queries,
      Match.bar ∉ query.document ∧ Match.newline ∉ query.document := by decide
  have hplain : ∀ query ∈ queries, Match.Plain (query.found index) := fun query hquery =>
    query.plain_found index (hdocuments query hquery).1 (hdocuments query hquery).2
  have hok : answered.1 = .ok () := by
    have hfits : ∀ query ∈ queries, query.fits settings = true := by decide
    obtain ⟨after, hanswer⟩ := exists_answerTo Workers.crew index hparallelism hfits pool []
    exact congrArg Prod.fst hanswer
  obtain ⟨-, hsame, hbatch⟩ := lines_read_back hxs hys
  obtain ⟨answer, htaken, hread⟩ := hbatch Workers Workers.crew index settings queries pool
    Sink.unlimited hparallelism hplain hok
  refine ⟨hxs, hys, hsame.mpr halike, hparallelism, hplain, hok, ?_⟩
  rw [htaken, Sink.unlimited, List.nil_append, hread]
  decide

end Batch

end PhraseLedger
