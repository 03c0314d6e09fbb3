import PhraseLedger.Proofs.Slices

/-!
# Scans that are cut

A text can be cut at its ends, in front of a space and behind a space: no word and no character
is cut there.  The members that start in the pieces, one piece behind the other, are those of the
text, if the scan of a piece may read on to the end of the text.

Main definitions:

- Definition {lit}`Text.IsCut`: the positions at which a text can be cut.
- Definition {lit}`Span.cutAt`: the pieces between cuts.

Main results:

- Theorem {lit}`Text.IsCut.isSeam`: no word is cut.
- Theorem {lit}`Index.flatMap_cutAt`: the scans of the pieces behind some position.
- Theorem {lit}`Index.pieces_add_up`: one cut, and any number of them.
-/

namespace PhraseLedger

/-- The pieces of a stretch between cuts that are given in their order. -/
def Span.cutAt (span : Span) : List Nat → List Span
  | [] => [span]
  | cut :: cuts => ⟨span.start, cut⟩ :: cutAt ⟨cut, span.stop⟩ cuts

namespace Text

/-! ## Cuts -/

/-- Whether a position is an end of a text, holds a space, or stands right behind a space. -/
def IsCut (text : Text) (cut : Nat) : Prop :=
  cut = 0 ∨ cut = text.length ∨ text[cut]? = some space ∨
    0 < cut ∧ text[cut - 1]? = some space

instance (text : Text) (cut : Nat) : Decidable (text.IsCut cut) :=
  inferInstanceAs (Decidable (_ ∨ _))

/-- No word is cut behind a space. -/
theorem isSeam_succ_of_space {text : Text} {pos : Nat} (hspace : text[pos]? = some space) :
    text.IsSeam (pos + 1) := by
  have hbound : pos < text.length := (List.getElem?_eq_some_iff.mp hspace).1
  have hlength : (text.take pos).length = pos := List.length_take_of_le hbound.le
  have hfront : text.take (pos + 1) = text.take pos ++ space :: [] := by
    rw [List.take_add_one, hspace]
    rfl
  have hwhole : text = text.take pos ++ space :: text.drop (pos + 1) := by
    rw [← drop_of_space hspace, List.take_append_drop]
  refine ⟨hbound, ?_⟩
  calc text.words
      = words (text.take pos) ++ wordsFrom (pos + 1) (text.drop (pos + 1)) := by
        rw [words, hwhole, wordsFrom_append_space, ← hwhole, hlength, Nat.zero_add, words]
    _ = words (text.take (pos + 1)) ++ wordsFrom (pos + 1) (text.drop (pos + 1)) := by
        rw [hfront, words, words, wordsFrom_append_space, wordsFrom_nil, List.append_nil]

namespace IsCut

variable {text : Text} {cut : Nat}

/-- No word is cut at a cut. -/
theorem isSeam (hcut : text.IsCut cut) : text.IsSeam cut := by
  rcases hcut with rfl | rfl | hspace | ⟨hpositive, hspace⟩
  · exact ⟨Nat.zero_le _, rfl⟩
  · exact isSeam_of_drop le_rfl (.inl List.drop_length)
  · have hbound := (List.getElem?_eq_some_iff.mp hspace).1
    exact isSeam_of_drop hbound.le (.inr ⟨_, drop_of_space hspace⟩)
  · have hseam := isSeam_succ_of_space hspace
    rwa [Nat.sub_add_cancel hpositive] at hseam

/-- No character is cut at a cut. -/
theorem isUtf8_drop (hcut : text.IsCut cut) (hutf8 : text.isUtf8 = true) :
    isUtf8 (text.drop cut) = true := by
  rcases hcut with rfl | rfl | hspace | ⟨hpositive, hspace⟩
  · exact hutf8
  · rw [List.drop_length]
    rfl
  · exact (isUtf8_drop_of_space hutf8 hspace).1
  · have hbehind := (isUtf8_drop_of_space hutf8 hspace).2
    rwa [Nat.sub_add_cancel hpositive] at hbehind

/-- A cut of a text is one of the rest of the text in front of which it stands. -/
theorem drop (hcut : text.IsCut cut) {start : Nat} (hstart : start ≤ cut) :
    IsCut (text.drop start) (cut - start) := by
  rw [IsCut, List.getElem?_drop, List.getElem?_drop, List.length_drop]
  rcases hcut with rfl | rfl | hspace | ⟨hpositive, hspace⟩
  · exact .inl (Nat.zero_sub start)
  · exact .inr (.inl rfl)
  · rw [Nat.add_sub_cancel' hstart]
    exact .inr (.inr (.inl hspace))
  · by_cases hsame : start = cut
    · exact .inl (by omega)
    · have hposition : start + (cut - start - 1) = cut - 1 := by omega
      rw [hposition]
      exact .inr (.inr (.inr ⟨by omega, hspace⟩))

end IsCut

end Text

namespace Index

/-! ## Scans of pieces -/

/-- The scans of the pieces behind a position add up to the scan of the text behind it. -/
theorem flatMap_cutAt (index : Index) (offset opIndex : Nat) {text : Text} {start : Nat}
    {cuts : List Nat} (hsorted : (start :: cuts).Pairwise (· ≤ ·))
    (hcuts : ∀ cut ∈ cuts, text.IsCut cut) :
    (Span.cutAt ⟨start, text.length⟩ cuts).flatMap (fun piece =>
        index.matchesFrom (text.drop piece.start) piece.length (offset + piece.start) opIndex) =
      index.matchesIn (text.drop start) (offset + start) opIndex := by
  induction cuts generalizing start with
  | nil =>
      simp only [Span.cutAt, List.flatMap_singleton, Span.length, matchesIn, List.length_drop]
  | cons cut cuts ih =>
      rcases List.pairwise_cons.mp hsorted with ⟨hstart, hrest⟩
      rcases List.forall_mem_cons.mp hcuts with ⟨hcut, hlater⟩
      have hle : start ≤ cut := hstart cut List.mem_cons_self
      have hpart : start + (cut - start) = cut := Nat.add_sub_cancel' hle
      have hseam := (hcut.drop hle).isSeam
      rw [← matchesFrom_append_matchesIn index hseam, List.drop_drop, Nat.add_assoc, hpart,
        ← ih hrest hlater]
      rfl

/-- The members of a text that start in front of a cut, and behind them those of the rest of the
text, are the members of the text, and so are the members that start in the pieces between any
cuts, one piece behind the other.  A text can be sliced at its cuts. -/
theorem pieces_add_up (index : Index) (text : Text) (offset opIndex : Nat) :
    (∀ cut, text.IsCut cut →
      index.matchesFrom text cut offset opIndex ++
          index.matchesFrom (text.drop cut) (text.length - cut) (offset + cut) opIndex =
        index.matchesIn text offset opIndex) ∧
    (∀ cuts : List Nat, cuts.Pairwise (· ≤ ·) → (∀ cut ∈ cuts, text.IsCut cut) →
      (Span.cutAt ⟨0, text.length⟩ cuts).flatMap (fun piece =>
          index.matchesFrom (text.drop piece.start) piece.length (offset + piece.start)
            opIndex) =
        index.matchesIn text offset opIndex) ∧
    (text.isUtf8 = true → ∀ cut, text.IsCut cut →
      text.isBoundary cut = true ∧ Text.isUtf8 (text.drop cut) = true) := by
  refine ⟨?_, ?_, ?_⟩
  · intro cut hcut
    rw [← matchesFrom_append_matchesIn index hcut.isSeam offset opIndex, matchesIn,
      List.length_drop]
  · intro cuts hsorted hcuts
    have hfirst : (0 :: cuts).Pairwise (· ≤ ·) :=
      List.pairwise_cons.mpr ⟨fun cut _ => Nat.zero_le cut, hsorted⟩
    exact flatMap_cutAt index offset opIndex hfirst hcuts
  · intro hutf8 cut hcut
    have hrest := hcut.isUtf8_drop hutf8
    exact ⟨Text.isBoundary_of_isUtf8_drop hcut.isSeam.1 hrest, hrest⟩

/-- Cuts around two spaces and behind the last one, none of which is in the two-byte character or
a word: the phrases `é a` and `é a b` reach across several of them. -/
theorem pieces_add_up_two_spaces :
    let text := Text.ofString " é  a b"
    let index := [" é a", "a", "é a b", "b a"].foldl
      (fun index phrase => index.add (Text.ofString phrase) 1) Index.empty
    let cuts := [0, 1, 3, 4, 7]
    text.isUtf8 = true ∧ (∀ cut ∈ cuts, text.IsCut cut ∧ text.isBoundary cut = true) ∧
      cuts.Pairwise (· ≤ ·) ∧
      index.matchesFrom text 4 10 1 ++ index.matchesFrom (text.drop 4) 4 14 1 =
        [⟨Text.ofString "é  a", 11⟩, ⟨Text.ofString "é  a b", 11⟩, ⟨Text.ofString "a", 15⟩] ∧
      (Span.cutAt ⟨0, 8⟩ cuts).flatMap (fun piece =>
          index.matchesFrom (text.drop piece.start) piece.length (10 + piece.start) 1) =
        [⟨Text.ofString "é  a", 11⟩, ⟨Text.ofString "é  a b", 11⟩, ⟨Text.ofString "a", 15⟩] := by
  intro text index cuts
  have hutf8 : text.isUtf8 = true := by decide +kernel
  have hsorted : cuts.Pairwise (· ≤ ·) := by decide
  have hcuts : ∀ cut ∈ cuts, text.IsCut cut := by decide +kernel
  have hmatches : index.matchesIn text 10 1 =
      [⟨Text.ofString "é  a", 11⟩, ⟨Text.ofString "é  a b", 11⟩, ⟨Text.ofString "a", 15⟩] := by
    decide +kernel
  rcases pieces_add_up index text 10 1 with ⟨hone, hmany, hslices⟩
  refine ⟨hutf8, fun cut hcut => ⟨hcuts cut hcut, (hslices hutf8 cut (hcuts cut hcut)).1⟩,
    hsorted, ?_, ?_⟩
  · exact (hone 4 (by decide +kernel)).trans hmatches
  · exact (hmany cuts hsorted hcuts).trans hmatches

end Index

end PhraseLedger
