import PhraseLedger.Proofs.Fanouts
import Mathlib.Data.List.Induction

/-!
# Tries that are made by edits

A trie starts with its root and is edited one path at a time.  After any edits it has a node for
every path that begins a planted one, and the log of the node holds what the edits wrote there.  The
children of every node are held in the form that their number asks for.

Main definitions:

- Definition {lit}`Trie.build`: the trie that some edits make.
- Definition {lit}`Trie.IsReached`: whether some edits reach a path.
- Definition {lit}`Trie.recordsOf`: the records that some edits write to a path.
- Definition {lit}`Node.Shows`: what a node tells about the edits.

Main results:

- Theorem {lit}`Trie.recordsAt_edit`: what one edit writes.
- Theorem {lit}`Trie.throughout_edit`: what one edit keeps of all nodes.
- Theorem {lit}`Trie.build_shows`: a trie is a map from the paths that are reached to the records
  that are written there.
-/

namespace PhraseLedger

/-! ## The node that is changed -/

/-- The node at the end of a path is the one that is changed there. -/
theorem Node.find?_update? {change : Node → Node} {path : List UInt8} {node after : Node}
    (hvalid : node.Valid) (hupdate : update? change path node = some after) :
    after.find? path = (node.find? path).map change := by
  induction path generalizing node after with
  | nil =>
      rw [update?, Option.some.injEq] at hupdate
      subst hupdate
      rfl
  | cons byte path ih =>
      rcases update?_cons_eq_some hupdate with ⟨child, changed, hchild, hchanged, rfl⟩
      rw [find?_cons, child?_insert hvalid, if_pos rfl, Option.bind_some,
        ih (hvalid.child hchild) hchanged, find?_cons, hchild, Option.bind_some]

/-- A node is changed at the end of a path exactly if there is one. -/
theorem Node.isSome_update? (change : Node → Node) (path : List UInt8) (node : Node) :
    (update? change path node).isSome = (node.find? path).isSome := by
  have hmissing := update?_eq_none_iff change path node
  rw [log?, Option.map_eq_none_iff] at hmissing
  rw [Bool.eq_iff_iff, Option.isSome_iff_ne_none, Option.isSome_iff_ne_none]
  exact not_congr hmissing

/-- What is found at the end of a path after a change there is what was found, with the change. -/
theorem Node.bind_find?_update? (change : Node → Node) (path : List UInt8) {node : Node}
    (hvalid : node.Valid) :
    (update? change path node).bind (·.find? path) = (node.find? path).map change := by
  cases hupdate : update? change path node with
  | none =>
      have hmissing := isSome_update? change path node
      rw [hupdate, Option.isSome_none, eq_comm, Option.isSome_eq_false_iff,
        Option.isNone_iff_eq_none] at hmissing
      rw [hmissing, Option.bind_none, Option.map_none]
  | some after => exact find?_update? hvalid hupdate

/-- Planting a path leads to the node that is there, or to a new node. -/
theorem Node.find?_plant {node : Node} (hvalid : node.Valid) (path : List UInt8) :
    (node.plant path).1.find? path = some ((node.find? path).getD empty) := by
  induction path generalizing node with
  | nil => rfl
  | cons byte path ih =>
      rw [plant_cons, find?_cons, child?_insert hvalid, if_pos rfl, Option.bind_some,
        ih (valid_child_getD hvalid byte), find?_cons]
      cases hchild : node.child? byte with
      | some child => rfl
      | none => cases path <;> rfl

namespace Trie

/-! ## Edits -/

/-- One thing that is done to a trie. -/
inductive Edit where
  /-- A path is planted. -/
  | plant (path : List UInt8)
  /-- A path is planted and its node gets a record. -/
  | record (path : List UInt8) (record : Record)
  /-- The node of a path gets a record, if there is such a node. -/
  | recordAt (path : List UInt8) (record : Record)
deriving DecidableEq, Repr

/-- A trie after an edit. -/
def edit (trie : Trie) : Edit → Trie
  | .plant path => trie.plant path
  | .record path record => trie.record path record
  | .recordAt path record => (trie.recordAt? path record).getD trie

/-- The trie that some edits make. -/
def build (edits : List Edit) : Trie :=
  edits.foldl edit empty

theorem build_concat (edits : List Edit) (last : Edit) :
    build (edits ++ [last]) = (build edits).edit last := by
  rw [build, List.foldl_append]
  rfl

/-- The path that an edit plants. -/
def Edit.planted? : Edit → Option (List UInt8)
  | .plant path => some path
  | .record path _ => some path
  | .recordAt _ _ => none

/-- Whether some edits reach a path: it is the path of the root or it begins a planted one. -/
def IsReached (edits : List Edit) (path : List UInt8) : Prop :=
  path = [] ∨ ∃ planted ∈ edits.filterMap Edit.planted?, path <+: planted

instance (edits : List Edit) (path : List UInt8) : Decidable (IsReached edits path) :=
  inferInstanceAs (Decidable (_ ∨ _))

theorem isReached_concat (edits : List Edit) (last : Edit) (path : List UInt8) :
    IsReached (edits ++ [last]) path ↔
      IsReached edits path ∨ ∃ planted ∈ last.planted?, path <+: planted := by
  simp only [IsReached, List.filterMap_append, List.mem_append, or_and_right, exists_or, or_assoc]
  cases hplanted : last.planted? <;> simp [hplanted]

/-- The record that an edit writes to a path after some other edits.  A path that they do not reach
takes a record only when it is planted. -/
def Edit.recordFor? (before : List Edit) (path : List UInt8) : Edit → Option Record
  | .plant _ => none
  | .record other written => if path = other then some written else none
  | .recordAt other written =>
    if path = other ∧ IsReached before other then some written else none

/-- The records that edits write to a path after some other edits, the oldest one first. -/
def recordsAfter (path : List UInt8) : List Edit → List Edit → List Record
  | _, [] => []
  | before, edit :: edits =>
    (edit.recordFor? before path).toList ++ recordsAfter path (before ++ [edit]) edits

/-- The records that some edits write to a path, the oldest one first. -/
def recordsOf (edits : List Edit) (path : List UInt8) : List Record :=
  recordsAfter path [] edits

theorem recordsAfter_concat (path : List UInt8) (before edits : List Edit) (last : Edit) :
    recordsAfter path before (edits ++ [last]) =
      recordsAfter path before edits ++ (last.recordFor? (before ++ edits) path).toList := by
  induction edits generalizing before with
  | nil => simp [recordsAfter]
  | cons edit edits ih =>
      rw [List.cons_append, recordsAfter, ih, recordsAfter, List.append_assoc,
        List.append_assoc, List.singleton_append]

theorem recordsOf_concat (edits : List Edit) (last : Edit) (path : List UInt8) :
    recordsOf (edits ++ [last]) path =
      recordsOf edits path ++ (last.recordFor? edits path).toList :=
  recordsAfter_concat path [] edits last

/-! ## One edit -/

section

variable {trie : Trie}

/-- What holds throughout a trie goes on to hold when a record is written to a path, or refused. -/
theorem throughout_recordAt? {holds : Fanout Node → Prop} (hkept : Fanout.IsKept holds)
    (h : trie.root.Throughout holds) (path : List UInt8) (record : Record) :
    ((trie.recordAt? path record).getD trie).root.Throughout holds := by
  cases hrecord : trie.recordAt? path record with
  | none => exact h
  | some after =>
      rcases Option.map_eq_some_iff.mp hrecord with ⟨root, hroot, rfl⟩
      exact h.update? hkept hroot

/-- What holds throughout a trie goes on to hold after an edit. -/
theorem throughout_edit {holds : Fanout Node → Prop} (hkept : Fanout.IsKept holds)
    (h : trie.root.Throughout holds) (edit : Edit) :
    (trie.edit edit).root.Throughout holds := by
  cases edit with
  | plant path => exact h.plant hkept path
  | record path record => exact throughout_recordAt? hkept (h.plant hkept path) path record
  | recordAt path record => exact throughout_recordAt? hkept h path record

/-- An edit adds the nodes along the path that it plants, and no others. -/
theorem isSome_log?_edit (hvalid : trie.Valid) (edit : Edit) (path : List UInt8) :
    ((trie.edit edit).log? path).isSome = true ↔
      (trie.log? path).isSome = true ∨ ∃ planted ∈ edit.planted?, path <+: planted := by
  cases edit with
  | plant planted =>
      rw [Trie.edit, log?_plant hvalid]
      by_cases hshared : path <+: planted <;> simp [Edit.planted?, hshared]
  | record planted record =>
      rw [Trie.edit, log?_record hvalid]
      by_cases hpath : path = planted
      · simp [Edit.planted?, hpath]
      · by_cases hshared : path <+: planted <;> simp [Edit.planted?, hpath, hshared]
  | recordAt other record =>
      rw [Trie.edit]
      cases hrecord : trie.recordAt? other record with
      | none => simp [Edit.planted?]
      | some after =>
          rw [Option.getD_some, log?_recordAt? hvalid hrecord]
          split <;> simp [Edit.planted?]

/-- An edit writes its record to its path behind the records that are there, and changes the
records of no other path. -/
theorem recordsAt_edit (hvalid : trie.Valid) {before : List Edit}
    (hreached : ∀ path, (trie.log? path).isSome = true ↔ IsReached before path) (edit : Edit)
    (path : List UInt8) :
    (trie.edit edit).recordsAt path =
      trie.recordsAt path ++ (edit.recordFor? before path).toList := by
  cases edit with
  | plant planted =>
      rw [Trie.edit, recordsAt_plant hvalid]
      simp [Edit.recordFor?]
  | record planted record =>
      rw [Trie.edit, recordsAt_record hvalid]
      by_cases hpath : path = planted <;> simp [Edit.recordFor?, hpath]
  | recordAt other record =>
      rw [Trie.edit]
      cases hrecord : trie.recordAt? other record with
      | none =>
          have hmissing : ¬IsReached before other := by
            rw [← hreached, (recordAt?_eq_none_iff trie other record).mp hrecord]
            simp
          simp [Edit.recordFor?, hmissing]
      | some after =>
          have hfound : IsReached before other :=
            (hreached other).mp (Option.isSome_iff_exists.mpr (exists_log?_of_recordAt? hrecord))
          rw [Option.getD_some, recordsAt_recordAt? hvalid hrecord]
          by_cases hpath : path = other <;> simp [Edit.recordFor?, hpath, hfound]

end

/-! ## All edits -/

/-- What is kept by every change of children holds throughout the tries that edits make. -/
theorem throughout_build {holds : Fanout Node → Prop} (hkept : Fanout.IsKept holds)
    (edits : List Edit) : (build edits).root.Throughout holds := by
  induction edits using List.reverseRecOn with
  | nil => exact .empty hkept
  | append_singleton edits last ih =>
      rw [build_concat]
      exact throughout_edit hkept ih last

theorem valid_build (edits : List Edit) : (build edits).Valid :=
  (Node.valid_iff_throughout _).mpr (throughout_build Fanout.isKept_valid edits)

/-- The paths that have nodes are those that the edits reach. -/
theorem isSome_log?_build (edits : List Edit) (path : List UInt8) :
    ((build edits).log? path).isSome = true ↔ IsReached edits path := by
  induction edits using List.reverseRecOn with
  | nil =>
      change (Node.empty.log? path).isSome = true ↔ _
      rw [Node.log?_empty]
      split <;> simp [IsReached, *]
  | append_singleton edits last ih =>
      rw [build_concat, isSome_log?_edit (valid_build edits), isReached_concat, ih]

theorem isSome_find?_build (edits : List Edit) (path : List UInt8) :
    ((build edits).find? path).isSome = true ↔ IsReached edits path := by
  rw [← isSome_log?_build, log?, Node.log?, Option.isSome_map]
  rfl

/-- The records of every path are those that the edits write to it. -/
theorem recordsAt_build (edits : List Edit) (path : List UInt8) :
    (build edits).recordsAt path = recordsOf edits path := by
  induction edits using List.reverseRecOn with
  | nil => exact recordsAt_empty path
  | append_singleton edits last ih =>
      rw [build_concat, recordsAt_edit (valid_build edits) (isSome_log?_build edits),
        recordsOf_concat, ih]

end Trie

/-! ## Nodes of edited tries -/

theorem Fanout.isKept_sound : Fanout.IsKept fun fanout : Fanout Node => fanout.Sound :=
  ⟨Fanout.Sound.valid, Fanout.sound_empty, fun byte child h => h.insert byte child⟩

/-- Whether the node of a path tells what some edits did there. -/
structure Node.Shows (edits : List Trie.Edit) (path : List UInt8) (node : Node) : Prop where
  /-- The log holds the records that were written to the path. -/
  log : node.log.toList = Trie.recordsOf edits path
  /-- The children are the nodes of the paths that go on by one byte. -/
  child? : ∀ byte, node.child? byte = (Trie.build edits).find? (path ++ [byte])
  /-- There are as many children as bytes by which a reached path goes on. -/
  childCount : node.childCount = {byte | Trie.IsReached edits (path ++ [byte])}.ncard
  /-- The children are held in a direct table exactly if there are more than four of them. -/
  isDirect : node.isDirect = true ↔ 4 < {byte | Trie.IsReached edits (path ++ [byte])}.ncard
  /-- Compact lists are equally long, short and name no byte twice. -/
  compact : ∀ keys children, node.fanout = .compact keys children →
    keys.length = children.length ∧ keys.length ≤ 4 ∧ keys.Nodup
  /-- The upgrade of compact lists keeps every child under its key, each of them once. -/
  upgrade : ∀ keys children, node.fanout = .compact keys children →
    (∀ byte, (Fanout.direct (Fanout.table keys children)).get? byte = node.child? byte) ∧
      (Fanout.direct (Fanout.table keys children)).toList.Perm (keys.zip children)
  /-- A direct table has 256 slots. -/
  direct : ∀ slots, node.fanout = .direct slots → slots.size = 256

/-- The nodes of a trie tell what the edits did that made it. -/
theorem Trie.shows_of_find? {edits : List Edit} {path : List UInt8} {node : Node}
    (hfound : (build edits).find? path = some node) : node.Shows edits path := by
  have hsound : node.fanout.Sound :=
    ((throughout_build Fanout.isKept_sound edits).find? hfound).fanout
  have hvalid := hsound.valid
  have hchild : ∀ byte, node.child? byte = (build edits).find? (path ++ [byte]) := by
    intro byte
    rw [find?, Node.find?_append, ← find?, hfound]
    cases hnext : node.child? byte <;> simp [hnext, Node.find?]
  have hbytes : {byte | (node.fanout.get? byte).isSome = true} =
      {byte | IsReached edits (path ++ [byte])} := by
    ext byte
    rw [Set.mem_ofPred_eq, Set.mem_ofPred_eq, ← isSome_find?_build, ← hchild]
    rfl
  have hcount : node.fanout.size = {byte | IsReached edits (path ++ [byte])}.ncard := by
    rw [Fanout.size_eq_ncard hvalid, hbytes]
  have hlog : (build edits).recordsAt path = node.log.toList := by
    rw [recordsAt, log?, Node.log?, ← find?, hfound]
    rfl
  exact
    { log := by rw [← hlog, recordsAt_build]
      child? := hchild
      childCount := hcount
      isDirect := by
        rw [← hcount]
        exact hsound.form
      compact := by
        intro keys children hcompact
        rw [hcompact] at hvalid
        exact ⟨hvalid.2.1.symm, hvalid.2.2, hvalid.1⟩
      upgrade := by
        intro keys children hcompact
        rw [hcompact] at hvalid
        refine ⟨fun byte => ?_, Fanout.toList_table_perm hvalid⟩
        rw [Fanout.get?_direct, Fanout.slot_table hvalid, ← hcompact]
        rfl
      direct := by
        intro slots hdirect
        rw [hdirect] at hvalid
        exact hvalid }

/-- A trie is a map from the paths that are reached to the records that are written there: it has a
node for exactly these paths, each node shows what the edits did, and the node that is found at the
end of a path is the one that is changed or planted there. -/
theorem Trie.build_shows (edits : List Edit) :
    (∀ path, ((build edits).find? path).isSome = true ↔ IsReached edits path) ∧
      (∀ path, ∀ node ∈ (build edits).find? path, node.Shows edits path) ∧
      ∀ path,
        ((build edits).plant path).find? path =
            some (((build edits).find? path).getD Node.empty) ∧
          ∀ change,
            ((build edits).root.update? change path).isSome =
                ((build edits).find? path).isSome ∧
              ((build edits).root.update? change path).bind (·.find? path) =
                ((build edits).find? path).map change := by
  have hvalid := valid_build edits
  refine ⟨isSome_find?_build edits, fun path node hfound => shows_of_find? hfound, ?_⟩
  intro path
  exact ⟨Node.find?_plant hvalid path, fun change =>
    ⟨Node.isSome_update? change path _, Node.bind_find?_update? change path hvalid⟩⟩

/-- The first record is refused, as its path has no node yet.  The fifth child of the node comes
between its records, and the child that was there first has its own record afterwards. -/
theorem Trie.build_shows_five_children :
    let edits : List Edit :=
      [.recordAt [7] ⟨.add, 0⟩, .record [7] ⟨.add, 1⟩, .plant [7, 0], .record [7, 9] ⟨.add, 2⟩,
        .plant [7, 9, 9], .plant [7, 255], .plant [7, 1], .record [7, 128] ⟨.add, 3⟩,
        .recordAt [7] ⟨.remove, 4⟩, .recordAt [7, 0] ⟨.add, 5⟩]
    ¬IsReached edits [9] ∧ (build edits).find? [9] = none ∧
      ∃ node child, (build edits).find? [7] = some node ∧ node.Shows edits [7] ∧
        node.log.toList = [⟨.add, 1⟩, ⟨.remove, 4⟩] ∧
        node.childCount = 5 ∧ node.isDirect = true ∧
        node.child? 0 = some child ∧ child.Shows edits [7, 0] ∧
        child.log.toList = [⟨.add, 5⟩] := by
  intro edits
  obtain ⟨hreached, hshows, -⟩ := build_shows edits
  have hmissing : (build edits).find? [9] = none := by
    rw [← Option.not_isSome_iff_eq_none, hreached]
    decide +kernel
  obtain ⟨node, hnode⟩ := Option.isSome_iff_exists.mp ((hreached [7]).mpr (by decide +kernel))
  obtain ⟨child, hchild⟩ := Option.isSome_iff_exists.mp ((hreached [7, 0]).mpr (by decide +kernel))
  have hnodeShows := hshows [7] node hnode
  have hchildShows := hshows [7, 0] child hchild
  have hform : ((build edits).find? [7]).map (fun node => (node.childCount, node.isDirect)) =
      some (5, true) := by
    decide +kernel
  rw [hnode, Option.map_some, Option.some.injEq] at hform
  obtain ⟨hcount, hdirect⟩ := Prod.mk.inj hform
  exact ⟨by decide +kernel, hmissing, node, child, hnode, hnodeShows,
    hnodeShows.log.trans (by decide +kernel), hcount, hdirect,
    (hnodeShows.child? 0).trans hchild, hchildShows, hchildShows.log.trans (by decide +kernel)⟩

end PhraseLedger
