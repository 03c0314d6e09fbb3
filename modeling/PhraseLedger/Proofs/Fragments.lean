import PhraseLedger.Proofs.Cutting
import PhraseLedger.Proofs.Stretches
import Mathlib.Algebra.Order.Floor.Div
import Mathlib.Data.List.TakeWhile

/-!
# The fragments of a document

The fragments of a document lie one behind the other and cover it.  Each of them is as short as
it can be without ending inside of a word, so all but the last have at least their share of the
document, and there are not more of them than were asked for.

Main definitions:

- Definition {lit}`Span.Tile`: stretches that cover a longer one.
- Definition {lit}`Text.IsFirstStop`: the first end that a stretch can have without cutting a
  word.

Main results:

- Theorem {lit}`Span.Tile.mul_length_lt`: how many stretches of some length fit.
- Theorem {lit}`Text.tile_fragments`: the fragments cover the document.
- Theorem {lit}`Text.isFirstStop_of_mem_fragments`: where a fragment ends.
- Theorem {lit}`Text.fragments?_eq_none_iff`: when a document is not cut.
- Theorem {lit}`Text.fragments_share_document`: all of this, and that no word is cut.
-/

namespace PhraseLedger

namespace Span

/-! ## Stretches one behind the other -/

/-- Whether stretches lie one behind the other from `start` to `stop`, without gaps and none of
them empty. -/
inductive Tile : Nat → Nat → List Span → Prop
  | nil (pos : Nat) : Tile pos pos []
  | cons {start middle stop : Nat} {rest : List Span} (hnonempty : start < middle)
      (hrest : Tile middle stop rest) : Tile start stop (⟨start, middle⟩ :: rest)

namespace Tile

variable {start stop : Nat} {spans : List Span}

theorem le (h : Tile start stop spans) : start ≤ stop := by
  induction h with
  | nil pos => exact le_rfl
  | cons hnonempty hrest ih => exact hnonempty.le.trans ih

/-- Stretches that cover something are not none. -/
theorem lt_of_ne_nil (h : Tile start stop spans) (hspans : spans ≠ []) : start < stop := by
  cases h with
  | nil => exact absurd rfl hspans
  | cons hnonempty hrest => exact hnonempty.trans_le hrest.le

/-- Every position lies in one of the stretches. -/
theorem exists_mem (h : Tile start stop spans) {pos : Nat} (hstart : start ≤ pos)
    (hstop : pos < stop) : ∃ span ∈ spans, span.start ≤ pos ∧ pos < span.stop := by
  induction h with
  | nil => omega
  | @cons start middle stop rest hnonempty hrest ih =>
      by_cases hfirst : pos < middle
      · exact ⟨⟨start, middle⟩, List.mem_cons_self, hstart, hfirst⟩
      · rcases ih (Nat.le_of_not_lt hfirst) hstop with ⟨span, hspan, hpos⟩
        exact ⟨span, List.mem_cons_of_mem _ hspan, hpos⟩

/-- No stretch is empty or reaches over the end. -/
theorem bounds_of_mem (h : Tile start stop spans) {span : Span} (hspan : span ∈ spans) :
    span.start < span.stop ∧ span.stop ≤ stop := by
  induction h with
  | nil => cases hspan
  | cons hnonempty hrest ih =>
      rcases List.mem_cons.mp hspan with rfl | hlater
      · exact ⟨hnonempty, hrest.le⟩
      · exact ih hlater

/-- Only the last stretch reaches the end. -/
theorem stop_lt_of_mem_dropLast (h : Tile start stop spans) {span : Span}
    (hspan : span ∈ spans.dropLast) : span.stop < stop := by
  induction h with
  | nil => cases hspan
  | @cons start middle stop rest hnonempty hrest ih =>
      by_cases hlast : rest = []
      · subst hlast
        cases hspan
      · rw [List.dropLast_cons_of_ne_nil hlast] at hspan
        rcases List.mem_cons.mp hspan with rfl | hlater
        · exact hrest.lt_of_ne_nil hlast
        · exact ih hlater

/-- Every stretch but the first starts where another one stops. -/
theorem exists_stop_of_mem_tail (h : Tile start stop spans) {span : Span}
    (hspan : span ∈ spans.tail) : ∃ before ∈ spans, before.stop = span.start := by
  induction h with
  | nil => cases hspan
  | @cons start middle stop rest hnonempty hrest ih =>
      cases hrest with
      | nil => cases hspan
      | @cons _ second _ others hsecond hothers =>
          rcases List.mem_cons.mp hspan with rfl | hlater
          · exact ⟨⟨start, middle⟩, List.mem_cons_self, rfl⟩
          · rcases ih hlater with ⟨before, hbefore, hstop⟩
            exact ⟨before, List.mem_cons_of_mem _ hbefore, hstop⟩

/-- Stretches of which all but the last have some length do not cover more than they have room
for. -/
theorem mul_length_lt (h : Tile start stop spans) {least : Nat}
    (hleast : ∀ span ∈ spans.dropLast, least ≤ span.length) (hspans : spans ≠ []) :
    start + least * (spans.length - 1) < stop := by
  induction h with
  | nil => exact absurd rfl hspans
  | @cons start middle stop rest hnonempty hrest ih =>
      by_cases hlast : rest = []
      · subst hlast
        simpa using hnonempty.trans_le hrest.le
      · rw [List.dropLast_cons_of_ne_nil hlast, List.forall_mem_cons] at hleast
        have hfirst : least ≤ middle - start := hleast.1
        have hroom := ih hleast.2 hlast
        have hcount := List.length_pos_iff.mpr hlast
        have hsplit : least * rest.length = least * (rest.length - 1) + least := by
          rw [← Nat.mul_succ, Nat.succ_eq_add_one, Nat.sub_add_cancel hcount]
        rw [List.length_cons, Nat.add_sub_cancel, hsplit]
        omega

end Tile

end Span

namespace Text

/-! ## Where a fragment ends -/

/-- Whether `stop` is the first position from `least` on that holds a space, or the end of the
text if there is no such position. -/
structure IsFirstStop (text : Text) (least stop : Nat) : Prop where
  inside : stop ≤ text.length
  stops : stop = text.length ∨ least ≤ stop ∧ text[stop]? = some space
  free : ∀ pos, least ≤ pos → pos < stop → text[pos]? ≠ some space

/-- What stops a stretch of the rest of a text stops it in the text. -/
theorem IsFirstStop.of_drop {text : Text} {start least stop : Nat} (hstart : start ≤ text.length)
    (h : IsFirstStop (text.drop start) least stop) :
    text.IsFirstStop (start + least) (start + stop) := by
  have hinside := h.inside
  rw [List.length_drop] at hinside
  refine ⟨by omega, ?_, ?_⟩
  · rcases h.stops with hend | ⟨hleast, hspace⟩
    · rw [List.length_drop] at hend
      exact .inl (by omega)
    · rw [List.getElem?_drop] at hspace
      exact .inr ⟨by omega, hspace⟩
  · intro pos hleast hpos
    have hfree := h.free (pos - start) (by omega) (by omega)
    rwa [List.getElem?_drop, Nat.add_sub_cancel' (by omega)] at hfree

/-- The first fragment of a text ends as soon as it can. -/
theorem isFirstStop_fragmentLength (least : Nat) (text : Text) :
    text.IsFirstStop least (fragmentLength least text) := by
  refine ⟨fragmentLength_le least text, ?_, ?_⟩
  · rcases drop_fragmentLength least text with hnil | ⟨rest, hspace⟩
    · have hlength := List.drop_eq_nil_iff.mp hnil
      exact .inl (Nat.le_antisymm (fragmentLength_le least text) hlength)
    · have hbyte : text[fragmentLength least text]? = some space := by
        rw [← List.head?_drop, hspace, List.head?_cons]
      have hbound := (List.getElem?_eq_some_iff.mp hbyte).1
      refine .inr ⟨?_, hbyte⟩
      rw [fragmentLength, List.length_take] at hbound ⊢
      omega
  · intro pos hleast hpos hspace
    have hbound := (List.getElem?_eq_some_iff.mp hspace).1
    have hbehind : pos - least < ((text.drop least).takeWhile (· != space)).length := by
      rw [fragmentLength, List.length_take] at hpos
      omega
    have hbyte : ((text.drop least).takeWhile (· != space) ++
        (text.drop least).dropWhile (· != space))[pos - least]? = some space := by
      rw [List.takeWhile_append_dropWhile, List.getElem?_drop, Nat.add_sub_cancel' hleast, hspace]
    rw [List.getElem?_append_left hbehind] at hbyte
    -- The bytes from `least` on were taken because they are no spaces.
    have htaken := List.mem_takeWhile_imp (List.mem_of_getElem? hbyte)
    simp at htaken

theorem fragmentLength_pos {least : Nat} (positive : 0 < least) {text : Text}
    (htext : text ≠ []) : 0 < fragmentLength least text := by
  have hlength := List.length_pos_iff.mpr htext
  rw [fragmentLength, List.length_take]
  omega

/-! ## All fragments -/

/-- The fragments of the rest of a document cover this rest. -/
theorem tile_fragmentsFrom {document text : Text} {least start : Nat} (positive : 0 < least)
    (hdrop : document.drop start = text) (hstart : start ≤ document.length) :
    Span.Tile start document.length (fragmentsFrom least positive start text) := by
  induction start, text using fragmentsFrom.induct least positive with
  | case1 start text htext length ih =>
      have hrest : document.drop (start + length) = text.drop length := by
        rw [← hdrop, List.drop_drop]
      have hinside : length ≤ text.length := fragmentLength_le least text
      rw [← hdrop, List.length_drop] at hinside
      have hpositive : 0 < length := fragmentLength_pos positive htext
      rw [fragmentsFrom_of_ne_nil least positive start htext]
      exact .cons (by omega) (ih hrest (by omega))
  | case2 start text htext =>
      have hend : document.length ≤ start := by
        rw [not_not.mp htext] at hdrop
        exact List.drop_eq_nil_iff.mp hdrop
      rw [not_not.mp htext, fragmentsFrom_nil, Nat.le_antisymm hstart hend]
      exact .nil _

/-- The fragments of a document cover it. -/
theorem tile_fragments (document : Text) (count : Nat) :
    Span.Tile 0 document.length (document.fragments count) :=
  tile_fragmentsFrom _ List.drop_zero (Nat.zero_le _)

/-- A fragment of the rest of a document ends as soon as it can. -/
theorem isFirstStop_of_mem_fragmentsFrom {document text : Text} {least start : Nat}
    {positive : 0 < least} (hdrop : document.drop start = text) (hstart : start ≤ document.length)
    {fragment : Span} (hfragment : fragment ∈ fragmentsFrom least positive start text) :
    document.IsFirstStop (fragment.start + least) fragment.stop := by
  induction start, text using fragmentsFrom.induct least positive with
  | case1 start text htext length ih =>
      have hrest : document.drop (start + length) = text.drop length := by
        rw [← hdrop, List.drop_drop]
      have hfirst := isFirstStop_fragmentLength least text
      rw [← hdrop] at hfirst
      have hstop := hfirst.of_drop hstart
      rw [hdrop] at hstop
      rw [fragmentsFrom_of_ne_nil least positive start htext] at hfragment
      rcases List.mem_cons.mp hfragment with rfl | hlater
      · exact hstop
      · exact ih hrest hstop.inside hlater
  | case2 start text htext =>
      rw [not_not.mp htext, fragmentsFrom_nil] at hfragment
      cases hfragment

/-- The share of a document that a fragment has at least is the length of the document divided
by the number of fragments, rounded up. -/
theorem leastFragment_eq_ceilDiv {length : Nat} (hlength : 0 < length) (count : Nat) :
    leastFragment length count = length ⌈/⌉ max count 1 := by
  have hpositive : 0 < length ⌈/⌉ max count 1 := by
    by_contra hzero
    have hcover := (ceilDiv_le_iff_le_mul (by omega)).mp (Nat.le_of_not_lt hzero)
    omega
  have hround : length + (max count 1 - 1) = length + max count 1 - 1 := by omega
  rw [leastFragment, hround, ← Nat.ceilDiv_eq_add_pred_div]
  omega

/-- A fragment of a document ends as soon as it has its share and no word is cut. -/
theorem isFirstStop_of_mem_fragments {document : Text} {count : Nat} {fragment : Span}
    (hfragment : fragment ∈ document.fragments count) :
    document.IsFirstStop (fragment.start + document.length ⌈/⌉ max count 1) fragment.stop := by
  have hbounds := (tile_fragments document count).bounds_of_mem hfragment
  have hlength : 0 < document.length := by omega
  rw [← leastFragment_eq_ceilDiv hlength]
  exact isFirstStop_of_mem_fragmentsFrom List.drop_zero (Nat.zero_le _) hfragment

/-- All fragments but the last have their share of the document. -/
theorem share_le_of_mem_dropLast {document : Text} {count : Nat} {fragment : Span}
    (hfragment : fragment ∈ (document.fragments count).dropLast) :
    document.length ⌈/⌉ max count 1 ≤ fragment.length := by
  have hinner := (tile_fragments document count).stop_lt_of_mem_dropLast hfragment
  rcases (isFirstStop_of_mem_fragments (List.mem_of_mem_dropLast hfragment)).stops with
    hend | ⟨hleast, -⟩
  · omega
  · rw [Span.length]
    omega

/-- There are not more fragments than were asked for. -/
theorem length_fragments_le (document : Text) (count : Nat) :
    (document.fragments count).length ≤ max count 1 := by
  by_cases hnone : document.fragments count = []
  · simp [hnone]
  · have hroom := (tile_fragments document count).mul_length_lt
      (fun _ hfragment => share_le_of_mem_dropLast hfragment) hnone
    have hcover : document.length ≤ max count 1 * (document.length ⌈/⌉ max count 1) :=
      (ceilDiv_le_iff_le_mul (by omega)).mp le_rfl
    rw [Nat.zero_add, Nat.mul_comm] at hroom
    have hcount := Nat.lt_of_mul_lt_mul_right (hroom.trans_le hcover)
    omega

/-- A word lies within one fragment. -/
theorem exists_fragment_of_isWord {document : Text} (count : Nat) {word : Span}
    (hword : document.IsWord word) :
    ∃ fragment ∈ document.fragments count,
      fragment.start ≤ word.start ∧ word.stop ≤ fragment.stop := by
  have hnonempty := hword.nonempty
  have hinside := hword.inside
  rcases (tile_fragments document count).exists_mem (Nat.zero_le word.start) (by omega) with
    ⟨fragment, hfragment, hstart, hstop⟩
  refine ⟨fragment, hfragment, hstart, ?_⟩
  by_contra hcut
  rcases (isFirstStop_of_mem_fragments hfragment).stops with hend | ⟨-, hspace⟩
  · omega
  · exact hword.free fragment.stop hstop.le (by omega) hspace

/-! ## Room for fragments -/

/-- There is room for less than `2 ^ 59` fragments. -/
theorem hasRoom_iff (count : Nat) : hasRoom count = true ↔ count < 2 ^ 59 := by
  rw [hasRoom, decide_eq_true_iff, Nat.one_shiftLeft]
  omega

/-- A document is not cut if there is no room, whatever its length is. -/
theorem fragments?_eq_none_iff (document : Text) (count : Nat) :
    document.fragments? count = none ↔ 2 ^ 59 ≤ count := by
  have hroom := hasRoom_iff count
  rw [fragments?]
  split
  · rename_i hfits
    have hless := hroom.mp hfits
    simp only [reduceCtorEq, false_iff, not_le]
    exact hless
  · rename_i hfull
    have hmore := mt hroom.mpr hfull
    simp only [true_iff]
    omega

theorem fragments_of_fragments? {document : Text} {count : Nat} {fragments : List Span}
    (hcut : document.fragments? count = some fragments) :
    fragments = document.fragments count := by
  rw [fragments?] at hcut
  split at hcut
  · exact (Option.some.inj hcut).symm
  · cases hcut

/-- A document is cut into fragments unless `2 ^ 59` of them or more were asked for.  They lie one
behind the other, cover the document, and are not more than were asked for, one if none was.  All
but the last have at least their share of the document, and each ends as soon as it has this share
and a space or the end of the document comes next.  All but the first start at a space, so that
each lies between two characters and no word is cut.  Positions in documents of less than 2 ^ 63
bytes are computed without going beyond 64 bits. -/
theorem fragments_share_document (document : Text) (count : Nat) :
    let share := document.length ⌈/⌉ max count 1
    (document.fragments? count = none ↔ 2 ^ 59 ≤ count) ∧
      ∀ fragments, document.fragments? count = some fragments →
        Span.Tile 0 document.length fragments ∧
          (fragments = [] ↔ document = []) ∧
          fragments.length ≤ max count 1 ∧
          (∀ fragment ∈ fragments.dropLast, share ≤ fragment.length) ∧
          (∀ fragment ∈ fragments.tail, document[fragment.start]? = some space) ∧
          (∀ word, document.IsWord word → ∃ fragment ∈ fragments,
            fragment.start ≤ word.start ∧ word.stop ≤ fragment.stop) ∧
          (∀ fragment ∈ fragments, document.isBoundary fragment.start = true) ∧
          (∀ fragment ∈ fragments,
            document.IsFirstStop (fragment.start + share) fragment.stop) ∧
          (document.length < 2 ^ 63 →
            ∀ fragment ∈ fragments, fragment.start + share < 2 ^ 64) := by
  intro share
  refine ⟨fragments?_eq_none_iff document count, fun fragments hcut => ?_⟩
  obtain rfl := fragments_of_fragments? hcut
  have htile := tile_fragments document count
  refine ⟨htile, ?_, length_fragments_le document count,
    fun _ hfragment => share_le_of_mem_dropLast hfragment, ?_,
    fun _ hword => exists_fragment_of_isWord count hword,
    fun _ hfragment => isBoundary_of_mem_fragments hfragment,
    fun _ hfragment => isFirstStop_of_mem_fragments hfragment, ?_⟩
  · constructor
    · intro hnone
      by_contra hdocument
      rw [fragments, fragmentsFrom_of_ne_nil _ _ _ hdocument] at hnone
      cases hnone
    · rintro rfl
      exact fragmentsFrom_nil _ _ _
  · intro fragment hfragment
    rcases htile.exists_stop_of_mem_tail hfragment with ⟨before, hbefore, hstart⟩
    have hbounds := htile.bounds_of_mem (List.mem_of_mem_tail hfragment)
    rcases (isFirstStop_of_mem_fragments hbefore).stops with hend | ⟨-, hspace⟩
    · omega
    · rwa [hstart] at hspace
  · intro hlength fragment hfragment
    have hbounds := htile.bounds_of_mem hfragment
    have hshare : share ≤ document.length := by
      refine (ceilDiv_le_iff_le_mul (by omega)).mpr ?_
      exact Nat.le_mul_of_pos_left _ (by omega)
    omega

/-- Nine bytes in three fragments: the second one starts at the second of two spaces and goes on
behind its share to the end of its word. -/
theorem fragments_share_document_nine_bytes :
    let document := ofString "ab  cü f"
    let fragments : List Span := [⟨0, 3⟩, ⟨3, 7⟩, ⟨7, 9⟩]
    document.fragments? 3 = some fragments ∧ fragments.length ≤ 3 ∧
      ⟨3, 7⟩ ∈ fragments.dropLast ∧ 3 ≤ Span.length ⟨3, 7⟩ ∧
      ⟨3, 7⟩ ∈ fragments.tail ∧ document[3]? = some space ∧
      document.IsWord ⟨4, 7⟩ ∧ (∃ fragment ∈ fragments, fragment.start ≤ 4 ∧ 7 ≤ fragment.stop) ∧
      document.isBoundary 3 = true ∧ document.IsFirstStop (3 + 3) 7 ∧
      document.length < 2 ^ 63 ∧ 3 + 3 < 2 ^ 64 := by
  intro document fragments
  have hcut : document.fragments? 3 = some fragments := by decide +kernel
  have hshare : document.length ⌈/⌉ max 3 1 = 3 := by decide +kernel
  have hlength : document.length < 2 ^ 63 := by decide +kernel
  have hword : document.IsWord ⟨4, 7⟩ :=
    (mem_wordSpans_iff document _).mp (by decide +kernel)
  have hinner : (⟨3, 7⟩ : Span) ∈ fragments.dropLast := by
    simp [fragments]
  have hlater : (⟨3, 7⟩ : Span) ∈ fragments.tail := by
    simp [fragments]
  have hmember : (⟨3, 7⟩ : Span) ∈ fragments := List.mem_of_mem_tail hlater
  rcases (fragments_share_document document 3).2 fragments hcut with
    ⟨-, -, hcount, hleast, hspace, hwhole, hboundary, hstop, hrange⟩
  rw [hshare] at hleast hstop hrange
  exact ⟨hcut, hcount, hinner, hleast _ hinner, hlater, hspace _ hlater, hword,
    hwhole _ hword, hboundary _ hmember, hstop _ hmember, hlength, hrange hlength _ hmember⟩

/-- Three bytes are not cut if `2 ^ 60` fragments are asked for, and neither is the empty document,
which has none. -/
theorem fragments_abort_without_room :
    (ofString "a b").length < 2 ^ 63 ∧ (ofString "a b").fragments? (2 ^ 60) = none ∧
      (ofString "").fragments? (2 ^ 60) = none := by
  decide

end Text

end PhraseLedger
