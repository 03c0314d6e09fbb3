import Mathlib.Algebra.Ring.Nat
import PhraseLedger.Text.Fragments
import PhraseLedger.Text.Utf8
import PhraseLedger.Proofs.Scan

/-!
# Fragments and slices

A document is cut in front of spaces only, so the members that start in its fragments,
one fragment behind the other, are the members of the document.  A list is cut into
slices that make up the list again.

Main results:

- Theorem {lit}`Text.isSeam_fragmentLength`: the first fragment of a text cuts no word.
- Theorem {lit}`Text.isBoundary_of_mem_fragments`: every fragment starts between two
  characters.
- Theorem {lit}`Index.flatMap_fragments`: the scans of the fragments against the scan of
  the document.
- Theorem {lit}`Slice.flatten_split`: the slices of a list make up the list.
-/

namespace PhraseLedger

namespace Text

/-! ## Fragments -/

/-- The first fragment of a text ends at the end of the text or in front of a space. -/
theorem exists_fragment (least : Nat) (text : Text) :
    ∃ front back, text = front ++ back ∧ front.length = fragmentLength least text ∧
      (back = [] ∨ ∃ rest, back = space :: rest) := by
  refine ⟨text.take least ++ (text.drop least).takeWhile (· != space),
    (text.drop least).dropWhile (· != space), ?_, ?_, ?_⟩
  · rw [List.append_assoc, List.takeWhile_append_dropWhile, List.take_append_drop]
  · rw [List.length_append, fragmentLength]
  · cases hback : (text.drop least).dropWhile (· != space) with
    | nil => exact Or.inl rfl
    | cons byte rest =>
        have hbyte : byte = space := by
          have hstop := List.head?_dropWhile_not (· != space) (text.drop least)
          rw [hback] at hstop
          simpa using hstop
        exact Or.inr ⟨rest, by rw [hbyte]⟩

/-- Behind the first fragment of a text there is nothing or a space. -/
theorem drop_fragmentLength (least : Nat) (text : Text) :
    text.drop (fragmentLength least text) = [] ∨
      ∃ rest, text.drop (fragmentLength least text) = space :: rest := by
  rcases exists_fragment least text with ⟨front, back, htext, hlength, hback⟩
  have hdrop : text.drop (fragmentLength least text) = back := by
    rw [← hlength, htext, List.drop_left]
  rw [hdrop]
  exact hback

/-- The first fragment of a text lies within the text. -/
theorem fragmentLength_le (least : Nat) (text : Text) :
    fragmentLength least text ≤ text.length := by
  rcases exists_fragment least text with ⟨front, back, htext, hlength, -⟩
  rw [← hlength, htext, List.length_append]
  omega

/-- The first fragment of a text cuts no word. -/
theorem isSeam_fragmentLength (least : Nat) (text : Text) :
    text.IsSeam (fragmentLength least text) :=
  isSeam_of_drop (fragmentLength_le least text) (drop_fragmentLength least text)

@[simp] theorem fragmentsFrom_nil (least : Nat) (positive : 0 < least) (start : Nat) :
    fragmentsFrom least positive start [] = [] := by
  rw [fragmentsFrom, dif_neg (by simp)]

/-- The fragments of a text are the first one and those of the text behind it. -/
theorem fragmentsFrom_of_ne_nil (least : Nat) (positive : 0 < least) (start : Nat)
    {text : Text} (htext : text ≠ []) :
    fragmentsFrom least positive start text =
      ⟨start, start + fragmentLength least text⟩ ::
        fragmentsFrom least positive (start + fragmentLength least text)
          (text.drop (fragmentLength least text)) := by
  rw [fragmentsFrom, dif_pos htext]

/-! ## Boundaries -/

theorem isBoundary_zero (text : Text) : text.isBoundary 0 = true := by
  cases text <;> rfl

/-- A space does not continue a character. -/
theorem isBoundary_of_drop {text rest : Text} {pos : Nat}
    (hdrop : text.drop pos = space :: rest) : text.isBoundary pos = true := by
  have hbyte : text[pos]? = some space := by
    rw [← List.head?_drop, hdrop, List.head?_cons]
  rw [isBoundary, hbyte]
  simp [Utf8.isContinuation, space]

/-- Every fragment starts between two characters: the first one at the start of the
document, and each later one at a space. -/
theorem isBoundary_of_mem_fragmentsFrom {document text : Text} {least start : Nat}
    {positive : 0 < least} (hdrop : document.drop start = text)
    (hstart : document.isBoundary start = true) {fragment : Span}
    (hfragment : fragment ∈ fragmentsFrom least positive start text) :
    document.isBoundary fragment.start = true := by
  induction start, text using fragmentsFrom.induct least positive with
  | case1 start text htext length ih =>
      rw [fragmentsFrom_of_ne_nil least positive start htext] at hfragment
      have hrest : document.drop (start + length) = text.drop length := by
        rw [← hdrop, List.drop_drop]
      rcases List.mem_cons.mp hfragment with rfl | hlater
      · exact hstart
      · rcases drop_fragmentLength least text with hend | ⟨rest, hspace⟩
        · rw [hend, fragmentsFrom_nil] at hlater
          simp at hlater
        · -- The next fragment starts at this space, so its start is a boundary again.
          exact ih hrest (isBoundary_of_drop (hrest.trans hspace)) hlater
  | case2 start text htext =>
      rw [not_not.mp htext, fragmentsFrom_nil] at hfragment
      simp at hfragment

/-- Every fragment of a document starts between two characters. -/
theorem isBoundary_of_mem_fragments {document : Text} {count : Nat} {fragment : Span}
    (hfragment : fragment ∈ document.fragments count) :
    document.isBoundary fragment.start = true :=
  isBoundary_of_mem_fragmentsFrom List.drop_zero (isBoundary_zero document) hfragment

end Text

namespace Index

/-! ## Scans of fragments -/

/-- The members that start in the fragments of the rest of a document are the members of
this rest. -/
theorem flatMap_fragmentsFrom (index : Index) (opIndex : Nat) {document text : Text}
    {least start : Nat} (positive : 0 < least) (hdrop : document.drop start = text) :
    (Text.fragmentsFrom least positive start text).flatMap (fun fragment =>
        index.matchesFrom (document.drop fragment.start) fragment.length fragment.start
          opIndex) =
      index.matchesIn text start opIndex := by
  induction start, text using Text.fragmentsFrom.induct least positive with
  | case1 start text htext length ih =>
      have hrest : document.drop (start + length) = text.drop length := by
        rw [← hdrop, List.drop_drop]
      have hlength : (Span.mk start (start + length)).length = length := by
        rw [Span.length, Nat.add_sub_cancel_left]
      rw [Text.fragmentsFrom_of_ne_nil least positive start htext, List.flatMap_cons,
        ih hrest, hlength, hdrop]
      exact matchesFrom_append_matchesIn index (Text.isSeam_fragmentLength least text)
        start opIndex
  | case2 start text htext =>
      rw [not_not.mp htext, Text.fragmentsFrom_nil]
      rfl

/-- The members that start in the fragments of a document are its members. -/
theorem flatMap_fragments (index : Index) (opIndex : Nat) (document : Text)
    (count : Nat) :
    (document.fragments count).flatMap (fun fragment =>
        index.matchesFrom (document.drop fragment.start) fragment.length fragment.start
          opIndex) =
      index.matchesIn document 0 opIndex :=
  flatMap_fragmentsFrom index opIndex _ List.drop_zero

end Index

namespace Slice

/-! ## Slices -/

/-- When the first `larger` ones of `count` slices get one item more, these come first. -/
theorem map_range_eq_replicate (count size larger : Nat) :
    ((List.range count).map fun i => size + if i < larger then 1 else 0) =
      List.replicate (min count larger) (size + 1) ++ List.replicate (count - larger) size := by
  induction count with
  | zero => simp
  | succ count ih =>
      rw [List.range_succ, List.map_append, ih, List.map_singleton]
      by_cases hlarger : count < larger
      · rw [if_pos hlarger, Nat.sub_eq_zero_of_le hlarger.le, Nat.sub_eq_zero_of_le hlarger,
          Nat.min_eq_left hlarger.le, Nat.min_eq_left hlarger, List.replicate_succ']
        simp
      · have hbehind : count + 1 - larger = count - larger + 1 := by omega
        have hfront : min (count + 1) larger = min count larger := by omega
        rw [if_neg hlarger, hbehind, hfront, List.append_assoc, List.replicate_succ']
        rfl

/-- The sizes of the slices: as many larger ones as the division leaves over, and then the
others. -/
theorem sizes_eq_replicate {length parts : Nat} (hcount : 0 < min parts length) :
    sizes length parts =
      List.replicate (length % min parts length) (length / min parts length + 1) ++
        List.replicate (min parts length - length % min parts length)
          (length / min parts length) := by
  rw [sizes, map_range_eq_replicate, Nat.min_eq_right (Nat.mod_lt length hcount).le]

/-- The sizes of the slices add up to the number of items. -/
theorem sum_sizes (length : Nat) {parts : Nat} (hparts : 1 ≤ parts) :
    (sizes length parts).sum = length := by
  by_cases hlength : length = 0
  · simp [sizes, hlength]
  · have hcount : 0 < min parts length := by omega
    have hlarger := Nat.mod_lt length hcount
    have hdivision := Nat.div_add_mod length (min parts length)
    have hfront := Nat.mul_le_mul_right (length / min parts length) hlarger.le
    rw [sizes_eq_replicate hcount, List.sum_append, List.sum_replicate_nat,
      List.sum_replicate_nat, Nat.mul_add_one, Nat.sub_mul]
    omega

/-- Taking pieces off a list takes as many items as the pieces have. -/
theorem flatten_takeEach {α : Type} (sizes : List Nat) (items : List α) :
    (takeEach sizes items).flatten = items.take sizes.sum := by
  induction sizes generalizing items with
  | nil => simp [takeEach]
  | cons size sizes ih =>
      rw [takeEach, List.flatten_cons, ih, List.sum_cons, List.take_add]

/-- The slices of a list make up the list. -/
theorem flatten_split {α : Type} (items : List α) {parts : Nat} (hparts : 1 ≤ parts) :
    (split items parts).flatten = items := by
  rw [split, flatten_takeEach, sum_sizes items.length hparts, List.take_length]

/-- The items of a slice are items of the list. -/
theorem mem_of_mem_split {α : Type} {items slice : List α} {parts : Nat} {item : α}
    (hslice : slice ∈ split items parts) (hitem : item ∈ slice) : item ∈ items := by
  have hflatten : item ∈ (split items parts).flatten := List.mem_flatten_of_mem hslice hitem
  rw [split, flatten_takeEach] at hflatten
  exact List.mem_of_mem_take hflatten

end Slice

end PhraseLedger
