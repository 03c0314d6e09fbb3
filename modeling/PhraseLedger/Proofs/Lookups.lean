import Mathlib.Data.List.Nodup

/-!
# Lists of keys and values

In a list of keys and values in which no key comes twice, a look-up finds what the list holds,
in whatever order it stands there.

Main results:

- Theorem {lit}`lookup_eq_some_iff_mem`: what is found is what the list holds.
- Theorem {lit}`lookup_eq_of_perm`: the order is of no account.
-/

namespace PhraseLedger

variable {α β : Type} [BEq α] [LawfulBEq α] {entries others : List (α × β)}

/-- A value is found under its key. -/
theorem lookup_eq_some_iff_mem (hkeys : (entries.map Prod.fst).Nodup) {key : α} {value : β} :
    entries.lookup key = some value ↔ (key, value) ∈ entries := by
  constructor
  · intro hfound
    rcases List.lookup_eq_some_iff.mp hfound with ⟨front, back, rfl, -⟩
    simp
  · intro hmem
    rcases List.append_of_mem hmem with ⟨front, back, rfl⟩
    rw [List.map_append, List.nodup_append] at hkeys
    refine List.lookup_eq_some_iff.mpr ⟨front, back, rfl, fun entry hentry => ?_⟩
    rw [bne_iff_ne]
    exact (hkeys.2.2 entry.1 (List.mem_map_of_mem hentry) key (by simp)).symm

/-- Nothing is found under a key that no entry has. -/
theorem lookup_eq_none_iff_not_mem {key : α} :
    entries.lookup key = none ↔ key ∉ entries.map Prod.fst := by
  rw [List.lookup_eq_none_iff, List.mem_map]
  constructor
  · rintro hfree ⟨entry, hentry, rfl⟩
    exact absurd (hfree entry hentry) (by simp)
  · intro hfree entry hentry
    rw [bne_iff_ne]
    rintro rfl
    exact hfree ⟨entry, hentry, rfl⟩

/-- Lists with the same entries find the same. -/
theorem lookup_eq_of_perm (hkeys : (entries.map Prod.fst).Nodup) (hperm : entries.Perm others)
    (key : α) : entries.lookup key = others.lookup key := by
  have hothers : (others.map Prod.fst).Nodup := (hperm.map Prod.fst).nodup_iff.mp hkeys
  refine Option.ext fun value => ?_
  rw [lookup_eq_some_iff_mem hkeys, lookup_eq_some_iff_mem hothers, hperm.mem_iff]

end PhraseLedger
