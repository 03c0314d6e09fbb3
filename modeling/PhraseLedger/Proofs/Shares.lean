import PhraseLedger.Proofs.Fragments

/-!
# The shares of a number of items

The slices of a number of items lie one behind the other and cover all of them.  Their sizes differ
by at most one, the larger ones come first, and there are as many larger ones as the division leaves
over.  So a list from which the slices are taken, one after the other, is used up.

Main results:

- Theorem {lit}`Slice.tile_spans`: the slices cover all items.
- Theorem {lit}`Slice.pairwise_sizes`: how the sizes of the slices differ.
- Theorem {lit}`Slice.split_eq_takeEach`: a list is cut into its slices.
- Theorem {lit}`Slice.spans_share_items`: all of this, and that nothing of a list is left over.
-/

namespace PhraseLedger

namespace Slice

/-! ## Stretches of given sizes -/

theorem map_length_layOut (start : Nat) (sizes : List Nat) :
    (layOut start sizes).map Span.length = sizes := by
  induction sizes generalizing start with
  | nil => rfl
  | cons size sizes ih =>
      rw [layOut, List.map_cons, ih, Span.length, Nat.add_sub_cancel_left]

/-- Stretches that are laid out cover as much as they have together. -/
theorem tile_layOut {sizes : List Nat} (hsizes : ∀ size ∈ sizes, 0 < size) (start : Nat) :
    Span.Tile start (start + sizes.sum) (layOut start sizes) := by
  induction sizes generalizing start with
  | nil => exact .nil start
  | cons size sizes ih =>
      rcases List.forall_mem_cons.mp hsizes with ⟨hsize, hrest⟩
      rw [List.sum_cons, ← Nat.add_assoc]
      exact .cons (by omega) (ih hrest (start + size))

/-! ## The slices of a number of items -/

theorem map_length_spans (length parts : Nat) :
    (spans length parts).map Span.length = sizes length parts :=
  map_length_layOut 0 _

theorem length_spans (length parts : Nat) : (spans length parts).length = min parts length := by
  rw [← List.length_map Span.length, map_length_spans, sizes, List.length_map, List.length_range]

/-- There is a slice exactly if there are items and at least one part. -/
theorem spans_ne_nil_iff (length parts : Nat) :
    spans length parts ≠ [] ↔ 0 < min parts length := by
  rw [← List.length_pos_iff, length_spans]

/-- No slice is empty. -/
theorem pos_of_mem_sizes {length parts size : Nat} (hsize : size ∈ sizes length parts) :
    0 < size := by
  rcases List.mem_map.mp hsize with ⟨i, hi, rfl⟩
  have hcount : 0 < min parts length := Nat.zero_lt_of_lt (List.mem_range.mp hi)
  exact Nat.add_pos_left (Nat.div_pos (Nat.min_le_right parts length) hcount) _

/-- The slices cover all items, one behind the other. -/
theorem tile_spans (length : Nat) {parts : Nat} (hparts : 1 ≤ parts) :
    Span.Tile 0 length (spans length parts) := by
  have hsizes : ∀ size ∈ sizes length parts, 0 < size := fun _ hsize => pos_of_mem_sizes hsize
  have htile := tile_layOut hsizes 0
  rwa [sum_sizes length hparts, Nat.zero_add] at htile

/-- A slice is not larger than those in front of it, and smaller by one at most. -/
theorem pairwise_sizes (length parts : Nat) :
    (sizes length parts).Pairwise fun first second => second ≤ first ∧ first ≤ second + 1 := by
  rw [sizes, List.pairwise_map]
  refine List.pairwise_lt_range.imp ?_
  intro i j hij
  split <;> split <;> omega

/-- A list is cut by taking its slices off, one after the other. -/
theorem split_eq_takeEach {α : Type} (items : List α) (parts : Nat) :
    split items parts = takeEach ((spans items.length parts).map Span.length) items := by
  rw [map_length_spans, split]

/-- Nothing of a list is left over when its slices are taken off, unless it has none. -/
theorem drop_sum_eq_nil {α : Type} (items : List α) {parts : Nat} (hparts : 1 ≤ parts) :
    items.drop ((spans items.length parts).map Span.length).sum = [] := by
  rw [map_length_spans, sum_sizes items.length hparts, List.drop_length]

/-- A number of items has as many slices as were asked for, but not more than items, and so none if
either number is zero.  No slice is empty, and if there are any, they lie one behind the other and
cover all items; the larger ones come first and have one item more than the others, and there are as
many of them as the division leaves over.  A list is cut by taking its slices off, one after the
other; unless it has items and no slices, they make up the list and nothing is left over. -/
theorem spans_share_items (length parts : Nat) :
    (spans length parts).length = min parts length ∧
      (spans length parts = [] ↔ parts = 0 ∨ length = 0) ∧
      (∀ span ∈ spans length parts, span.start < span.stop) ∧
      (spans length parts ≠ [] →
        Span.Tile 0 length (spans length parts) ∧
          (spans length parts).map Span.length =
            List.replicate (length % min parts length) (length / min parts length + 1) ++
              List.replicate (min parts length - length % min parts length)
                (length / min parts length)) ∧
      ((spans length parts).map Span.length).Pairwise
        (fun first second => second ≤ first ∧ first ≤ second + 1) ∧
      ∀ (α : Type) (items : List α), items.length = length →
        split items parts = takeEach ((spans length parts).map Span.length) items ∧
          ((parts = 0 → items = []) →
            (split items parts).flatten = items ∧
              items.drop ((spans length parts).map Span.length).sum = []) := by
  have hcount := spans_ne_nil_iff length parts
  have hnone : spans length parts = [] ↔ parts = 0 ∨ length = 0 := by
    rw [← not_iff_not, ← ne_eq, hcount]
    omega
  refine ⟨length_spans length parts, hnone, ?_, ?_, ?_, ?_⟩
  · intro span hspan
    have hparts : parts ≠ 0 := fun hzero => by
      rw [hnone.mpr (.inl hzero)] at hspan
      cases hspan
    exact ((tile_spans length (Nat.pos_of_ne_zero hparts)).bounds_of_mem hspan).1
  · intro hspans
    rw [hcount] at hspans
    exact ⟨tile_spans length (by omega), by rw [map_length_spans, sizes_eq_replicate hspans]⟩
  · rw [map_length_spans]
    exact pairwise_sizes length parts
  · rintro α items rfl
    refine ⟨split_eq_takeEach items parts, ?_⟩
    intro hitems
    rcases Nat.eq_zero_or_pos parts with hzero | hparts
    · rw [hitems hzero]
      exact ⟨by simp [split, flatten_takeEach], List.drop_nil⟩
    · exact ⟨flatten_split items hparts, drop_sum_eq_nil items hparts⟩

/-- Eleven items in four slices, three of which get an item more. -/
theorem spans_share_items_eleven :
    spans 11 4 = [⟨0, 3⟩, ⟨3, 6⟩, ⟨6, 9⟩, ⟨9, 11⟩] ∧ spans 11 4 ≠ [] ∧
      Span.Tile 0 11 (spans 11 4) ∧ (spans 11 4).map Span.length = [3, 3, 3, 2] ∧
      (List.range 11).length = 11 ∧ ((4 : Nat) = 0 → List.range 11 = []) ∧
      takeEach [3, 3, 3, 2] (List.range 11) = [[0, 1, 2], [3, 4, 5], [6, 7, 8], [9, 10]] ∧
      (split (List.range 11) 4).flatten = List.range 11 ∧
      (List.range 11).drop [3, 3, 3, 2].sum = [] := by
  have hspans : spans 11 4 = [⟨0, 3⟩, ⟨3, 6⟩, ⟨6, 9⟩, ⟨9, 11⟩] := by decide
  have hnonempty : spans 11 4 ≠ [] := by
    rw [hspans]
    exact List.cons_ne_nil _ _
  have hlength : (List.range 11).length = 11 := List.length_range
  have hparts : (4 : Nat) = 0 → List.range 11 = [] := by decide
  obtain ⟨-, -, -, hcover, -, htaken⟩ := spans_share_items 11 4
  obtain ⟨htile, hsizes⟩ := hcover hnonempty
  obtain ⟨-, hall⟩ := htaken Nat (List.range 11) hlength
  obtain ⟨hflatten, hrest⟩ := hall hparts
  rw [hsizes] at hrest
  exact ⟨hspans, hnonempty, htile, hsizes, hlength, hparts, by decide, hflatten, hrest⟩

end Slice

end PhraseLedger
