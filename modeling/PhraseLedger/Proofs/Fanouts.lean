import PhraseLedger.Proofs.Lookups
import PhraseLedger.Proofs.Trie
import Mathlib.Data.Set.Card

/-!
# The children of a node, counted and listed

Listed with their bytes, the children of a node are the same in both forms, each of them once.
So the upgrade from compact lists to a direct table loses no child, and a node has a direct table
exactly if it has more children than compact lists take.

Main definitions:

- Definition {lit}`Fanout.Sound`: children that are held in the form that their number asks for.

Main results:

- Theorem {lit}`Fanout.mem_toList_iff`: the children that are listed are those that are found.
- Theorem {lit}`Fanout.size_eq_ncard`: how many children there are.
- Theorem {lit}`Fanout.toList_insert_perm`: what a child that is put under a byte replaces.
- Theorem {lit}`Fanout.toList_table_perm`: the upgrade keeps the children.
- Theorem {lit}`Fanout.Sound.insert`: the form changes when it has to.
-/

namespace PhraseLedger

namespace Fanout

variable {α : Type}

/-! ## The children of both forms -/

/-- A child of compact lists is found under its key. -/
theorem mem_toList_compact {keys : List UInt8} {children : List α}
    (hvalid : (compact keys children).Valid) (byte : UInt8) (child : α) :
    (byte, child) ∈ (compact keys children).toList ↔
      (compact keys children).get? byte = some child := by
  have hkeys : ((keys.zip children).map Prod.fst).Nodup := by
    rw [map_fst_zip_children hvalid]
    exact hvalid.1
  rw [get?_compact, toList]
  exact (lookup_eq_some_iff_mem hkeys).symm

/-- A child of a direct table stands in the slot of its byte. -/
theorem mem_toList_direct {slots : Array (Option α)} (hsize : slots.size = directSize)
    (byte : UInt8) (child : α) :
    (byte, child) ∈ (direct slots).toList ↔ slots[byte.toNat]?.join = some child := by
  rw [toList, List.mem_filterMap]
  constructor
  · rintro ⟨⟨slot, i⟩, hslot, hentry⟩
    rw [List.mk_mem_zipIdx_iff_getElem?, Array.getElem?_toList] at hslot
    rcases Option.map_eq_some_iff.mp hentry with ⟨found, rfl, hpair⟩
    obtain ⟨rfl, rfl⟩ := Prod.mk.inj hpair
    have hbound : i < UInt8.size := by
      rcases Array.getElem?_eq_some_iff.mp hslot with ⟨hi, -⟩
      rwa [hsize] at hi
    rw [UInt8.toNat_ofNat_of_lt' hbound, hslot]
    rfl
  · intro hfound
    refine ⟨(some child, byte.toNat), ?_, by simp⟩
    rw [List.mk_mem_zipIdx_iff_getElem?, Array.getElem?_toList]
    exact Option.join_eq_some_iff.mp hfound

/-- The children that are listed are those that are found. -/
theorem mem_toList_iff {fanout : Fanout α} (hvalid : fanout.Valid) (byte : UInt8) (child : α) :
    (byte, child) ∈ fanout.toList ↔ fanout.get? byte = some child := by
  cases fanout with
  | compact keys children => exact mem_toList_compact hvalid byte child
  | direct slots => exact mem_toList_direct hvalid byte child

/-- No byte is listed twice. -/
theorem nodup_bytes {fanout : Fanout α} (hvalid : fanout.Valid) :
    (fanout.toList.map Prod.fst).Nodup := by
  cases fanout with
  | compact keys children =>
      rw [toList, map_fst_zip_children hvalid]
      exact hvalid.1
  | direct slots =>
      have hpositions : slots.toList.zipIdx.Pairwise fun first second => first.2 ≠ second.2 := by
        rw [← List.pairwise_map, List.zipIdx_map_snd]
        exact List.nodup_range'
      rw [toList, List.map_filterMap, List.Nodup, List.pairwise_filterMap]
      refine hpositions.imp_of_mem ?_
      intro first second hfirst hsecond hne byte hbyte other hother hsame
      have hinside : ∀ entry ∈ slots.toList.zipIdx, entry.2 < UInt8.size := by
        intro entry hentry
        have hbound := (List.mem_zipIdx' hentry).1
        rwa [Array.length_toList, hvalid] at hbound
      simp only [Option.map_map, Option.map_eq_some_iff] at hbyte hother
      rcases hbyte with ⟨child, -, rfl⟩
      rcases hother with ⟨sibling, -, rfl⟩
      -- Equal bytes come from equal positions, since all positions fit into a byte.
      have htoNat := congrArg UInt8.toNat hsame
      simp only [Function.comp_apply] at htoNat
      rw [UInt8.toNat_ofNat_of_lt' (hinside first hfirst),
        UInt8.toNat_ofNat_of_lt' (hinside second hsecond)] at htoNat
      exact hne htoNat

/-- All children are listed. -/
theorem length_toList {fanout : Fanout α} (hvalid : fanout.Valid) :
    fanout.toList.length = fanout.size := by
  cases fanout with
  | compact keys children =>
      rw [toList, ← List.length_map Prod.fst, map_fst_zip_children hvalid, size]
  | direct slots =>
      have hslots : slots.toList.zipIdx.countP (fun entry => entry.1.isSome) =
          (slots.toList.zipIdx.map Prod.fst).countP Option.isSome := by
        rw [List.countP_map]
        rfl
      rw [toList, List.length_filterMap_eq_countP]
      simp only [Option.isSome_map]
      rw [hslots, List.zipIdx_map_fst, Array.countP_toList, size]

theorem mem_bytes_iff {fanout : Fanout α} (hvalid : fanout.Valid) (byte : UInt8) :
    byte ∈ fanout.toList.map Prod.fst ↔ (fanout.get? byte).isSome = true := by
  rw [List.mem_map, Option.isSome_iff_exists]
  constructor
  · rintro ⟨⟨key, child⟩, hentry, rfl⟩
    exact ⟨child, (mem_toList_iff hvalid key child).mp hentry⟩
  · rintro ⟨child, hchild⟩
    exact ⟨(byte, child), (mem_toList_iff hvalid byte child).mpr hchild, rfl⟩

/-- There are as many children as bytes under which one is found. -/
theorem size_eq_ncard {fanout : Fanout α} (hvalid : fanout.Valid) :
    fanout.size = {byte | (fanout.get? byte).isSome = true}.ncard := by
  have hbytes : {byte | (fanout.get? byte).isSome = true} =
      ((fanout.toList.map Prod.fst).toFinset : Set UInt8) := by
    ext byte
    rw [List.coe_toFinset, Set.mem_ofPred_eq, Set.mem_ofPred_eq, mem_bytes_iff hvalid]
  rw [hbytes, Set.ncard_coe_finset, List.toFinset_card_of_nodup (nodup_bytes hvalid),
    List.length_map, length_toList hvalid]

theorem nodup_toList {fanout : Fanout α} (hvalid : fanout.Valid) : fanout.toList.Nodup :=
  (nodup_bytes hvalid).of_map

/-! ## The children under one byte and under the others -/

/-- The children under all bytes but one. -/
def others (fanout : Fanout α) (byte : UInt8) : List (UInt8 × α) :=
  fanout.toList.filter (·.1 ≠ byte)

theorem mem_others_iff {fanout : Fanout α} (hvalid : fanout.Valid) (byte other : UInt8)
    (child : α) :
    (other, child) ∈ fanout.others byte ↔ other ≠ byte ∧ fanout.get? other = some child := by
  rw [others, List.mem_filter, mem_toList_iff hvalid, and_comm]
  simp

theorem nodup_others {fanout : Fanout α} (hvalid : fanout.Valid) (byte : UInt8) :
    (fanout.others byte).Nodup :=
  (nodup_toList hvalid).filter _

/-- The children are the one under a byte, if there is one, and those under the others. -/
theorem toList_perm {fanout : Fanout α} (hvalid : fanout.Valid) (byte : UInt8) :
    fanout.toList.Perm ((fanout.get? byte).toList.map (byte, ·) ++ fanout.others byte) := by
  have hsingle : ((fanout.get? byte).toList.map (byte, ·)).Nodup := by
    cases fanout.get? byte <;> simp
  have hdisjoint : ((fanout.get? byte).toList.map (byte, ·)).Disjoint (fanout.others byte) := by
    rintro ⟨other, child⟩ hhere hother
    rw [mem_others_iff hvalid] at hother
    rcases List.mem_map.mp hhere with ⟨found, -, hpair⟩
    exact hother.1 (Prod.mk.inj hpair).1.symm
  refine (List.perm_ext_iff_of_nodup (nodup_toList hvalid)
    (hsingle.append (nodup_others hvalid byte) hdisjoint)).mpr ?_
  rintro ⟨other, child⟩
  rw [mem_toList_iff hvalid, List.mem_append, mem_others_iff hvalid]
  by_cases hother : other = byte
  · simp [hother]
  · simp [hother, Ne.symm hother]

/-- A child that is put under a byte replaces the one that is there and no other. -/
theorem toList_insert_perm {fanout : Fanout α} (hvalid : fanout.Valid) (byte : UInt8)
    (child : α) :
    (fanout.insert byte child).toList.Perm ((byte, child) :: fanout.others byte) := by
  have hinserted := valid_insert hvalid byte child
  have hfresh : (byte, child) ∉ fanout.others byte := by
    rw [mem_others_iff hvalid]
    exact fun hother => hother.1 rfl
  refine (List.perm_ext_iff_of_nodup (nodup_toList hinserted)
    (List.nodup_cons.mpr ⟨hfresh, nodup_others hvalid byte⟩)).mpr ?_
  rintro ⟨other, found⟩
  rw [mem_toList_iff hinserted, get?_insert hvalid, List.mem_cons, mem_others_iff hvalid]
  by_cases hother : other = byte
  · simp [hother, eq_comm]
  · simp [hother]

/-! ## The upgrade -/

theorem valid_table (keys : List UInt8) (children : List α) :
    (direct (table keys children)).Valid :=
  size_table keys children

/-- The direct table of compact lists holds their children, each of them once and under its
key. -/
theorem toList_table_perm {keys : List UInt8} {children : List α}
    (hvalid : (compact keys children).Valid) :
    (direct (table keys children)).toList.Perm (keys.zip children) := by
  have htable := valid_table keys children
  have hpairs : (compact keys children).toList.Nodup := nodup_toList hvalid
  refine (List.perm_ext_iff_of_nodup (nodup_toList htable) hpairs).mpr ?_
  rintro ⟨byte, child⟩
  rw [mem_toList_iff htable, mem_toList_iff hvalid, get?_direct, slot_table hvalid]

/-- A child under a new byte is one more. -/
theorem size_insert {fanout : Fanout α} (hvalid : fanout.Valid) (byte : UInt8) (child : α) :
    (fanout.insert byte child).size =
      if (fanout.get? byte).isSome then fanout.size else fanout.size + 1 := by
  have hbefore := (toList_perm hvalid byte).length_eq
  have hafter := (toList_insert_perm hvalid byte child).length_eq
  rw [length_toList hvalid, List.length_append] at hbefore
  rw [length_toList (valid_insert hvalid byte child), List.length_cons] at hafter
  cases hfound : fanout.get? byte with
  | none => simpa [hfound, hbefore] using hafter
  | some found => simp [hfound, hbefore, hafter, Nat.add_comm]

/-- A child that is there forces no upgrade, however full the compact lists are. -/
theorem upgrades_of_get? {fanout : Fanout α} {byte : UInt8} {child : α}
    (hfound : fanout.get? byte = some child) : fanout.upgrades byte = false := by
  cases fanout with
  | compact keys children =>
      have hmem : byte ∈ keys := by
        by_contra hfresh
        rw [get?, List.idxOf?_eq_none_iff.mpr hfresh, Option.bind_none] at hfound
        cases hfound
      simp [upgrades, hmem]
  | direct slots => rfl

/-- A direct table comes with the upgrade and stays. -/
theorem isDirect_insert (fanout : Fanout α) (byte : UInt8) (child : α) :
    (fanout.insert byte child).isDirect = (fanout.isDirect || fanout.upgrades byte) := by
  cases fanout with
  | compact keys children =>
      cases hposition : keys.idxOf? byte with
      | some position =>
          rcases List.idxOf?_eq_some_iff.mp hposition with ⟨hbound, hkey, -⟩
          have hmem : byte ∈ keys := hkey ▸ List.getElem_mem hbound
          rw [insert_of_position hposition]
          simp [isDirect, upgrades, hmem]
      | none =>
          have hfresh := List.idxOf?_eq_none_iff.mp hposition
          rw [insert_of_fresh hfresh]
          by_cases hfull : keys.length = compactLimit <;> simp [isDirect, upgrades, hfull, hfresh]
  | direct slots => rfl

/-- Whether children are held as they should be, and in a direct table exactly if they are too
many for a compact list. -/
structure Sound (fanout : Fanout α) : Prop where
  valid : fanout.Valid
  form : fanout.isDirect = true ↔ compactLimit < fanout.size

theorem sound_empty : (empty : Fanout α).Sound :=
  ⟨valid_empty, by simp [empty, isDirect, size]⟩

/-- Putting a child under a byte changes the form when the children become too many, and never
else. -/
theorem Sound.insert {fanout : Fanout α} (h : fanout.Sound) (byte : UInt8) (child : α) :
    (fanout.insert byte child).Sound := by
  refine ⟨valid_insert h.valid byte child, ?_⟩
  have hsize := size_insert h.valid byte child
  cases fanout with
  | compact keys children =>
      have hlimit : keys.length ≤ compactLimit := h.valid.2.2
      cases hposition : keys.idxOf? byte with
      | some position =>
          rw [insert_of_position hposition]
          simp [isDirect, size, hlimit]
      | none =>
          have hfresh := List.idxOf?_eq_none_iff.mp hposition
          have hnone : (compact keys children).get? byte = none := by
            rw [get?, hposition, Option.bind_none]
          rw [hnone, if_neg (by simp), size] at hsize
          rw [hsize, insert_of_fresh hfresh]
          by_cases hfull : keys.length = compactLimit
          · simp [hfull, isDirect]
          · have hroom : ¬compactLimit < keys.length + 1 := by omega
            simp [hfull, isDirect, hroom]
  | direct slots =>
      have hmany : compactLimit < (direct slots).size := h.form.mp rfl
      have hgrown : (direct slots).size ≤ ((direct slots).insert byte child).size := by
        rw [hsize]
        split <;> omega
      exact ⟨fun _ => hmany.trans_le hgrown, fun _ => rfl⟩

end Fanout

end PhraseLedger
