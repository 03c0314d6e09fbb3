import PhraseLedger.Proofs.Edits
import PhraseLedger.Proofs.Membership
import Mathlib.Data.FinEnum

/-!
# The size of an index

A trie is counted while it grows, one byte of a planted path at a time.  The count is that of its
nodes, listed with their paths, and of those among them that have a direct table.  The nodes are
those of the paths that begin the spelling of an added phrase, so the size of an index is a function
of the set of its phrases that were ever added.

Main definitions:

- Definition {lit}`Node.entries`: the nodes of a tree with their paths.
- Definition {lit}`Node.census`: the size of a tree, counted node by node.
- Definition {lit}`Revision.added`: the phrases that some revisions add.
- Definition {lit}`Index.sizeFor`: the size of an index to which some phrases were ever added.

Main results:

- Theorems {lit}`Node.mem_entries_iff` and {lit}`Node.nodup_paths`: every node is listed under its
  path, once.
- Theorem {lit}`Node.census_plant`: planting a path grows a tree by what is counted.
- Theorem {lit}`Trie.counted_build`: the size that was counted while a trie grew.
- Theorem {lit}`Index.stats_replay`: the size of an index by its added phrases.
- Theorem {lit}`Index.replay_measures`: all that is counted, and what it does not depend on.
-/

namespace PhraseLedger

/-- A child is smaller than the children that it is one of. -/
theorem Fanout.sizeOf_lt_of_mem_toList {α : Type} [SizeOf α] {fanout : Fanout α}
    {entry : UInt8 × α} (hentry : entry ∈ fanout.toList) : sizeOf entry.2 < sizeOf fanout := by
  cases fanout with
  | compact keys children =>
      have hmem := List.sizeOf_lt_of_mem (List.of_mem_zip hentry).2
      rw [compact.sizeOf_spec]
      omega
  | direct slots =>
      rcases List.mem_filterMap.mp hentry with ⟨⟨slot, i⟩, hslot, hfound⟩
      rcases Option.map_eq_some_iff.mp hfound with ⟨child, rfl, rfl⟩
      have hmem :=
        Array.sizeOf_lt_of_mem (Array.mem_toList_iff.mp (List.fst_mem_of_mem_zipIdx hslot))
      rw [Option.some.sizeOf_spec] at hmem
      rw [direct.sizeOf_spec]
      simp only
      omega

/-- The size of two trees together, part by part. -/
@[simp] theorem TrieStats.nodes_add (first second : TrieStats) :
    (first + second).nodes = first.nodes + second.nodes := rfl

@[simp] theorem TrieStats.directNodes_add (first second : TrieStats) :
    (first + second).directNodes = first.directNodes + second.directNodes := rfl

attribute [ext] TrieStats

namespace Node

/-! ## The nodes of a tree -/

/-- The nodes at and below a node, each with the path that leads to it. -/
def entries (node : Node) : List (List UInt8 × Node) :=
  ([], node) :: node.fanout.toList.attach.flatMap fun ⟨(byte, child), _hmem⟩ =>
    (entries child).map fun entry => (byte :: entry.1, entry.2)
termination_by sizeOf node
decreasing_by
  have hchild := Fanout.sizeOf_lt_of_mem_toList _hmem
  cases node
  simp only [mk.sizeOf_spec] at *
  omega

/-- The nodes at and below a node. -/
def nodes (node : Node) : List Node :=
  node.entries.map Prod.snd

/-- The size of the tree at and below a node, counted node by node. -/
def census (node : Node) : TrieStats :=
  ⟨node.nodes.length, node.nodes.countP isDirect⟩

/-- The nodes below a node are those at and below its children. -/
theorem entries_eq (node : Node) :
    node.entries = ([], node) :: node.fanout.toList.flatMap fun next =>
      next.2.entries.map fun entry => (next.1 :: entry.1, entry.2) := by
  rw [entries]
  congr 1
  rw [List.flatMap_subtype (g := fun next =>
      next.2.entries.map fun entry => (next.1 :: entry.1, entry.2)) fun _ _ => rfl,
    List.unattach_attach]

/-- Every node is listed under the path that leads to it. -/
theorem mem_entries_iff {node : Node} (hvalid : node.Valid) (path : List UInt8) (last : Node) :
    (path, last) ∈ node.entries ↔ node.find? path = some last := by
  induction path generalizing node with
  | nil =>
      rw [entries_eq]
      simp [find?, eq_comm]
  | cons byte path ih =>
      rw [entries_eq, find?_cons, Option.bind_eq_some_iff]
      simp only [List.mem_cons, Prod.mk.injEq, reduceCtorEq, false_and, false_or,
        List.mem_flatMap, List.mem_map]
      constructor
      · rintro ⟨⟨key, child⟩, hchild, ⟨rest, found⟩, hentry, hpath, rfl⟩
        obtain ⟨rfl, rfl⟩ := List.cons.inj hpath
        have hget : node.child? key = some child :=
          (Fanout.mem_toList_iff hvalid.fanout key child).mp hchild
        exact ⟨child, hget, (ih (hvalid.child hget)).mp hentry⟩
      · rintro ⟨child, hget, hfound⟩
        exact ⟨(byte, child), (Fanout.mem_toList_iff hvalid.fanout byte child).mpr hget,
          (path, last), (ih (hvalid.child hget)).mpr hfound, rfl, rfl⟩

theorem mem_paths_iff {node : Node} (hvalid : node.Valid) (path : List UInt8) :
    path ∈ node.entries.map Prod.fst ↔ (node.find? path).isSome = true := by
  rw [List.mem_map, Option.isSome_iff_exists]
  constructor
  · rintro ⟨⟨path, last⟩, hentry, rfl⟩
    exact ⟨last, (mem_entries_iff hvalid path last).mp hentry⟩
  · rintro ⟨last, hlast⟩
    exact ⟨(path, last), (mem_entries_iff hvalid path last).mpr hlast, rfl⟩

/-- No path is listed twice. -/
theorem nodup_paths {node : Node} (hvalid : node.Valid) :
    (node.entries.map Prod.fst).Nodup := by
  induction hvalid with
  | @intro node hfanout hchild ih =>
      rw [entries_eq, List.map_cons, List.nodup_cons, List.map_flatMap, List.nodup_flatMap]
      refine ⟨by simp, ?_, ?_⟩
      · rintro ⟨byte, child⟩ hnext
        have hget := (Fanout.mem_toList_iff hfanout byte child).mp hnext
        have hpaths := (ih byte child hget).map (List.cons_injective (a := byte))
        rw [List.map_map] at hpaths ⊢
        exact hpaths
      · -- Paths through different children start with different bytes.
        have hbytes := Fanout.nodup_bytes hfanout
        rw [List.Nodup, List.pairwise_map] at hbytes
        refine hbytes.imp ?_
        intro first second hne path hfirst hsecond
        simp only [List.mem_map] at hfirst hsecond
        rcases hfirst with ⟨-, ⟨entry, -, rfl⟩, rfl⟩
        rcases hsecond with ⟨-, ⟨other, -, rfl⟩, hpath⟩
        exact hne (List.cons.inj hpath).1.symm

/-! ## Counting nodes -/

/-- The nodes at and below a node of which something holds are those below its children, and the
node itself if it holds of it. -/
theorem countP_nodes (holds : Node → Bool) (node : Node) :
    node.nodes.countP holds =
      (node.fanout.toList.map fun next => next.2.nodes.countP holds).sum +
        if holds node then 1 else 0 := by
  rw [nodes, List.countP_map, entries_eq, List.countP_cons, List.countP_flatMap]
  congr 2
  apply List.map_congr_left
  intro next _
  rw [Function.comp_apply, List.countP_map, nodes, List.countP_map]
  rfl

/-- A child that is put under a byte brings its nodes and takes away those of the child that was
there. -/
theorem countP_nodes_insert (holds : Node → Bool) {node : Node} (hvalid : node.Valid)
    (byte : UInt8) (child : Node) :
    { node with fanout := node.fanout.insert byte child }.nodes.countP holds +
        (((node.child? byte).map fun child => child.nodes.countP holds).getD 0 +
          if holds node then 1 else 0) =
      node.nodes.countP holds + (child.nodes.countP holds +
        if holds { node with fanout := node.fanout.insert byte child } then 1 else 0) := by
  have hbefore := ((Fanout.toList_perm hvalid.fanout byte).map fun next =>
    next.2.nodes.countP holds).sum_eq
  have hafter := ((Fanout.toList_insert_perm hvalid.fanout byte child).map fun next =>
    next.2.nodes.countP holds).sum_eq
  rw [List.map_append, List.sum_append] at hbefore
  rw [List.map_cons, List.sum_cons] at hafter
  rw [countP_nodes, countP_nodes, hbefore, hafter, child?]
  cases node.fanout.get? byte <;> simp <;> omega

theorem census_empty : empty.census = ⟨1, 0⟩ := by
  have hentries : empty.entries = [([], empty)] := by
    rw [entries_eq]
    rfl
  rw [census, nodes, hentries]
  rfl

/-- A child that is put under a byte makes its node one more node with a direct table if it forces
the upgrade. -/
theorem ite_isDirect_insert (node : Node) (byte : UInt8) (child : Node) :
    (if { node with fanout := node.fanout.insert byte child }.isDirect then 1 else 0) =
      (if node.isDirect then 1 else 0) + if node.fanout.upgrades byte then 1 else 0 := by
  have hform : { node with fanout := node.fanout.insert byte child }.isDirect =
      (node.isDirect || node.fanout.upgrades byte) :=
    Fanout.isDirect_insert node.fanout byte child
  have hexclusive : node.isDirect = true → node.fanout.upgrades byte = false := by
    rw [isDirect]
    cases node.fanout <;> simp [Fanout.isDirect, Fanout.upgrades]
  cases hdirect : node.isDirect with
  | true => simp [hform, hdirect, hexclusive hdirect]
  | false => simp [hform, hdirect]

/-- The size of the tree below a byte, or nothing if there is no child. -/
def censusAt (node : Node) (byte : UInt8) : TrieStats :=
  ((node.child? byte).map census).getD ⟨0, 0⟩

/-- The size of a tree when a child is put under a byte: the size of the child comes in the place
of that of the child that was there, and the node itself may be upgraded. -/
theorem census_insert {node : Node} (hvalid : node.Valid) (byte : UInt8) (child : Node) :
    { node with fanout := node.fanout.insert byte child }.census + node.censusAt byte =
      node.census + (child.census + ⟨0, if node.fanout.upgrades byte then 1 else 0⟩) := by
  have hnodes := countP_nodes_insert (fun _ => true) hvalid byte child
  have hdirect := countP_nodes_insert isDirect hvalid byte child
  rw [ite_isDirect_insert] at hdirect
  simp only [List.countP_true, if_true] at hnodes
  rw [censusAt]
  ext
  · cases hchild : node.child? byte <;> simp [hchild, census] at hnodes ⊢ <;> omega
  · cases hchild : node.child? byte <;> simp [hchild, census] at hdirect ⊢ <;> omega

/-- A new node takes the place of a child that is missing. -/
theorem census_child_getD (node : Node) (byte : UInt8) :
    ((node.child? byte).getD empty).census =
      node.censusAt byte + ⟨if (node.child? byte).isNone then 1 else 0, 0⟩ := by
  rw [censusAt]
  cases node.child? byte with
  | none => exact census_empty
  | some child => rfl

/-- Planting a path grows a tree by as much as is counted. -/
theorem census_plant {node : Node} (hvalid : node.Valid) (path : List UInt8) :
    (plant path node).1.census = node.census + (plant path node).2 := by
  induction path generalizing node with
  | nil => rfl
  | cons byte path ih =>
      have hgrown : (plant (byte :: path) node).2 =
          node.growth byte + (plant path ((node.child? byte).getD empty)).2 := rfl
      have hinsert := census_insert hvalid byte (plant path ((node.child? byte).getD empty)).1
      rw [ih (valid_child_getD hvalid byte), census_child_getD] at hinsert
      simp only [TrieStats.ext_iff, TrieStats.nodes_add, TrieStats.directNodes_add] at hinsert
      rw [plant_cons, hgrown, growth]
      ext <;> simp only [TrieStats.nodes_add, TrieStats.directNodes_add] <;> omega

theorem census_append (node : Node) (record : Record) :
    (node.append record).census = node.census := by
  have hcount : ∀ holds : Node → Bool, holds (node.append record) = holds node →
      (node.append record).nodes.countP holds = node.nodes.countP holds := by
    intro holds hsame
    rw [countP_nodes, countP_nodes, hsame]
    rfl
  have hnodes := hcount (fun _ => true) rfl
  simp only [List.countP_true] at hnodes
  exact TrieStats.ext hnodes (hcount isDirect rfl)

/-- Appending a record at the end of a path adds no node and upgrades none. -/
theorem census_update? {record : Record} {path : List UInt8} {node after : Node}
    (hvalid : node.Valid) (hupdate : update? (·.append record) path node = some after) :
    after.census = node.census := by
  induction path generalizing node after with
  | nil =>
      rw [update?, Option.some.injEq] at hupdate
      rw [← hupdate, census_append]
  | cons byte path ih =>
      rcases update?_cons_eq_some hupdate with ⟨child, changed, hchild, hchanged, rfl⟩
      have hinsert := census_insert hvalid byte changed
      rw [ih (hvalid.child hchild) hchanged, censusAt, hchild, Option.map_some, Option.getD_some,
        Fanout.upgrades_of_get? hchild] at hinsert
      simp only [TrieStats.ext_iff, TrieStats.nodes_add, TrieStats.directNodes_add,
        Bool.false_eq_true, if_false] at hinsert
      ext <;> omega

end Node

namespace Trie

/-! ## The size that was counted -/

/-- Whether the size that was counted while a trie grew is the size that it has. -/
def Counted (trie : Trie) : Prop :=
  trie.stats = trie.root.census

theorem counted_empty : empty.Counted :=
  Node.census_empty.symm

theorem Counted.plant {trie : Trie} (h : trie.Counted) (hvalid : trie.Valid)
    (path : List UInt8) : (trie.plant path).Counted := by
  change trie.stats + (trie.root.plant path).2 = (trie.root.plant path).1.census
  rw [Node.census_plant hvalid, h]

theorem Counted.recordAt? {trie : Trie} (h : trie.Counted) (hvalid : trie.Valid)
    (path : List UInt8) (record : Record) :
    ((trie.recordAt? path record).getD trie).Counted := by
  cases hrecord : trie.recordAt? path record with
  | none => exact h
  | some after =>
      rcases Option.map_eq_some_iff.mp hrecord with ⟨root, hroot, rfl⟩
      exact h.trans (Node.census_update? hvalid hroot).symm

theorem Counted.edit {trie : Trie} (h : trie.Counted) (hvalid : trie.Valid) (edit : Edit) :
    (trie.edit edit).Counted := by
  cases edit with
  | plant path => exact h.plant hvalid path
  | record path record => exact (h.plant hvalid path).recordAt? (valid_plant hvalid path) path record
  | recordAt path record => exact h.recordAt? hvalid path record

/-- The size that is counted while edits make a trie is the size that it has. -/
theorem counted_build (edits : List Edit) : (build edits).Counted := by
  induction edits using List.reverseRecOn with
  | nil => exact counted_empty
  | append_singleton edits last ih =>
      rw [build_concat]
      exact ih.edit (valid_build edits) last

/-- The paths that have nodes, listed once each. -/
theorem toFinset_paths_build {edits : List Edit} {reached : Finset (List UInt8)}
    (hreached : ∀ path, path ∈ reached ↔ IsReached edits path) :
    ((build edits).root.entries.map Prod.fst).toFinset = reached := by
  ext path
  rw [List.mem_toFinset, Node.mem_paths_iff (valid_build edits), hreached]
  exact isSome_find?_build edits path

/-- There are as many nodes as paths that the edits reach. -/
theorem length_nodes_build {edits : List Edit} {reached : Finset (List UInt8)}
    (hreached : ∀ path, path ∈ reached ↔ IsReached edits path) :
    (build edits).root.nodes.length = reached.card := by
  rw [← toFinset_paths_build hreached,
    List.toFinset_card_of_nodup (Node.nodup_paths (valid_build edits)), Node.nodes,
    List.length_map, List.length_map]

end Trie

/-! ## Bytes by which a node goes on -/

/-- The bytes under which a node has a child. -/
def Node.nextBytes (node : Node) : Finset UInt8 :=
  Finset.univ.filter fun byte => (node.child? byte).isSome = true

/-- The bytes by which a path goes on within some paths. -/
def Trie.nextBytes (reached : Finset (List UInt8)) (path : List UInt8) : Finset UInt8 :=
  Finset.univ.filter fun byte => path ++ [byte] ∈ reached

/-- A node goes on by the bytes of its children. -/
theorem Node.card_nextBytes {node : Node} (hvalid : node.fanout.Valid) :
    node.nextBytes.card = node.fanout.size := by
  rw [Fanout.size_eq_ncard hvalid, ← Set.ncard_coe_finset]
  congr 1
  ext byte
  rw [Finset.mem_coe, Set.mem_ofPred_eq, nextBytes, Finset.mem_filter, child?]
  simp

namespace Trie

/-- A node has a direct table exactly if it has at least five children. -/
theorem isDirect_iff_of_mem_nodes {edits : List Edit} {node : Node}
    (hnode : node ∈ (build edits).root.nodes) :
    node.isDirect = true ↔ 5 ≤ node.nextBytes.card := by
  rcases List.mem_map.mp hnode with ⟨⟨path, last⟩, hentry, rfl⟩
  have hfound := (Node.mem_entries_iff (valid_build edits) path last).mp hentry
  have hsound : last.fanout.Sound :=
    ((throughout_build Fanout.isKept_sound edits).find? hfound).fanout
  rw [Node.card_nextBytes hsound.valid]
  exact hsound.form

theorem nextBytes_of_mem_entries {edits : List Edit} {reached : Finset (List UInt8)}
    (hreached : ∀ path, path ∈ reached ↔ IsReached edits path) {path : List UInt8} {node : Node}
    (hentry : (path, node) ∈ (build edits).root.entries) :
    node.nextBytes = nextBytes reached path := by
  have hfound := (Node.mem_entries_iff (valid_build edits) path node).mp hentry
  ext byte
  simp only [Node.nextBytes, nextBytes, Finset.mem_filter, Finset.mem_univ, true_and]
  rw [hreached, ← isSome_find?_build, find?, Node.find?_append, hfound, Option.bind_some,
    Node.find?_cons]
  cases node.child? byte <;> simp [Node.find?]

/-- The nodes that go on by at least five bytes are as many as the reached paths that do. -/
theorem countP_nextBytes_build {edits : List Edit} {reached : Finset (List UInt8)}
    (hreached : ∀ path, path ∈ reached ↔ IsReached edits path) :
    (build edits).root.nodes.countP (fun node => 5 ≤ node.nextBytes.card) =
      (reached.filter fun path => 5 ≤ (nextBytes reached path).card).card := by
  have hsame : (build edits).root.nodes.countP (fun node => 5 ≤ node.nextBytes.card) =
      ((build edits).root.entries.map Prod.fst).countP
        fun path => 5 ≤ (nextBytes reached path).card := by
    rw [Node.nodes, List.countP_map, List.countP_map]
    apply List.countP_congr
    rintro ⟨path, node⟩ hentry
    simp [nextBytes_of_mem_entries hreached hentry]
  rw [hsame, ← toFinset_paths_build hreached, List.countP_eq_length_filter,
    ← List.toFinset_card_of_nodup ((Node.nodup_paths (valid_build edits)).filter _),
    List.toFinset_filter]
  simp

end Trie

/-! ## Indexes -/

namespace Revision

/-- The phrases that some revisions add, told by their word lists. -/
def added (revisions : List Revision) : Finset (List Text) :=
  ((revisions.filter (·.kind = .add)).map (·.text.wordList)).toFinset.erase []

theorem mem_added_iff (revisions : List Revision) (phrase : List Text) :
    phrase ∈ added revisions ↔
      phrase ≠ [] ∧ ∃ revision ∈ revisions, revision.kind = .add ∧
        revision.text.wordList = phrase := by
  rw [added, Finset.mem_erase, List.mem_toFinset, List.mem_map]
  simp only [List.mem_filter, decide_eq_true_eq, and_assoc]

/-- What a revision does to the trie behind an index, unless its text has no words. -/
def edit? (revision : Revision) : Option Trie.Edit :=
  if revision.text.hasWord then
    match revision.kind with
    | .add => some (.record (Index.path revision.text) ⟨.add, revision.opIndex⟩)
    | .remove => some (.recordAt (Index.path revision.text) ⟨.remove, revision.opIndex⟩)
  else none

end Revision

namespace Index

/-- The paths that begin the spelling of one of some phrases, but for the empty one. -/
def beginnings (phrases : Finset (List Text)) : Finset (List UInt8) :=
  (phrases.biUnion fun phrase => (Text.spell phrase).inits.toFinset).erase []

theorem mem_beginnings_iff (phrases : Finset (List Text)) (path : List UInt8) :
    path ∈ beginnings phrases ↔ path ≠ [] ∧ ∃ phrase ∈ phrases, path <+: Text.spell phrase := by
  simp [beginnings]

/-- The size of an index to which some phrases were ever added: a node for the root and for every
beginning, and a direct table for each of them that goes on by at least five bytes. -/
def sizeFor (phrases : Finset (List Text)) : TrieStats :=
  let reached := insert [] (beginnings phrases)
  ⟨reached.card, (reached.filter fun path => 5 ≤ (Trie.nextBytes reached path).card).card⟩

theorem trie_add (index : Index) (text : Text) (opIndex : Nat) :
    (index.add text opIndex).trie =
      if text.hasWord then index.trie.edit (.record (path text) ⟨.add, opIndex⟩)
      else index.trie := by
  rw [add, add?]
  split <;> rfl

theorem trie_remove (index : Index) (text : Text) (opIndex : Nat) :
    (index.remove text opIndex).trie =
      if text.hasWord then index.trie.edit (.recordAt (path text) ⟨.remove, opIndex⟩)
      else index.trie := by
  rw [remove, remove?]
  split
  · rw [Trie.edit]
    cases index.trie.recordAt? (path text) ⟨.remove, opIndex⟩ <;> rfl
  · rfl

/-- A revision edits the trie behind an index, or leaves it alone if its text has no words. -/
theorem trie_apply (index : Index) (revision : Revision) :
    (index.apply revision).trie = revision.edit?.elim index.trie index.trie.edit := by
  rcases revision with ⟨kind, text, opIndex⟩
  by_cases hword : text.hasWord = true
  · cases kind with
    | add => simp [apply, trie_add, Revision.edit?, hword]
    | remove => simp [apply, trie_remove, Revision.edit?, hword]
  · cases kind with
    | add => simp [apply, trie_add, Revision.edit?, hword]
    | remove => simp [apply, trie_remove, Revision.edit?, hword]

/-- The trie behind an index is made by the edits that its revisions come to. -/
theorem trie_replay (revisions : List Revision) :
    (replay revisions).trie = Trie.build (revisions.filterMap Revision.edit?) := by
  induction revisions using List.reverseRecOn with
  | nil => rfl
  | append_singleton revisions last ih =>
      rw [replay, List.foldl_append, List.foldl_cons, List.foldl_nil, trie_apply, ← replay, ih,
        List.filterMap_append]
      cases hlast : last.edit? with
      | none => simp [hlast]
      | some edit => simp [hlast, Trie.build_concat]

/-- The paths that are planted are the spellings of the added phrases. -/
theorem planted_edit_iff (revisions : List Revision) (planted : List UInt8) :
    planted ∈ (revisions.filterMap Revision.edit?).filterMap Trie.Edit.planted? ↔
      ∃ phrase ∈ Revision.added revisions, Text.spell phrase = planted := by
  have hadds : ∀ revision : Revision,
      revision.edit?.bind Trie.Edit.planted? = some planted ↔
        revision.kind = .add ∧ revision.text.wordList ≠ [] ∧
          Text.spell revision.text.wordList = planted := by
    rintro ⟨kind, text, opIndex⟩
    rw [← Text.phrase_eq_wordList, ← Text.hasWord_iff]
    by_cases hword : text.hasWord = true <;> cases kind <;>
      simp [Revision.edit?, hword, Trie.Edit.planted?, path]
  rw [List.filterMap_filterMap, List.mem_filterMap]
  simp only [Revision.mem_added_iff, hadds]
  constructor
  · rintro ⟨revision, hrevision, hkind, hwords, hspell⟩
    exact ⟨_, ⟨hwords, revision, hrevision, hkind, rfl⟩, hspell⟩
  · rintro ⟨-, ⟨hwords, revision, hrevision, hkind, rfl⟩, hspell⟩
    exact ⟨revision, hrevision, hkind, hwords, hspell⟩

/-- A path has a node if it is empty or begins an added phrase. -/
theorem mem_insert_beginnings_iff (revisions : List Revision) (path : List UInt8) :
    path ∈ insert [] (beginnings (Revision.added revisions)) ↔
      Trie.IsReached (revisions.filterMap Revision.edit?) path := by
  rw [Finset.mem_insert, mem_beginnings_iff, Trie.IsReached]
  simp only [planted_edit_iff]
  by_cases hpath : path = []
  · simp [hpath]
  · simp only [hpath, ne_eq, not_false_eq_true, true_and, false_or]
    constructor
    · rintro ⟨phrase, hphrase, hbegins⟩
      exact ⟨_, ⟨phrase, hphrase, rfl⟩, hbegins⟩
    · rintro ⟨-, ⟨phrase, hphrase, rfl⟩, hbegins⟩
      exact ⟨phrase, hphrase, hbegins⟩

/-- The nodes with a direct table are those that go on by at least five bytes. -/
theorem countP_isDirect_replay (revisions : List Revision) :
    (replay revisions).trie.root.nodes.countP Node.isDirect =
      (replay revisions).trie.root.nodes.countP fun node => 5 ≤ node.nextBytes.card := by
  apply List.countP_congr
  intro node hnode
  rw [trie_replay] at hnode
  rw [decide_eq_true_iff]
  exact Trie.isDirect_iff_of_mem_nodes hnode

/-- The size of an index is that of the tree behind it. -/
theorem stats_replay_eq_census (revisions : List Revision) :
    (replay revisions).stats = (replay revisions).trie.root.census := by
  rw [stats, trie_replay]
  exact Trie.counted_build _

/-- The size of an index is told by the phrases that were ever added to it. -/
theorem stats_replay (revisions : List Revision) :
    (replay revisions).stats = sizeFor (Revision.added revisions) := by
  have hreached := mem_insert_beginnings_iff revisions
  rw [stats_replay_eq_census, Node.census, countP_isDirect_replay, trie_replay,
    Trie.length_nodes_build hreached, Trie.countP_nextBytes_build hreached]
  rfl

/-- The size that an index has counted after any additions and removals is that of the tree behind
it: a node for the root and one for every other path that begins the spelling of an added phrase,
and a direct table for every node that goes on by at least five bytes.  It does not depend on
more than the set of added phrases, and a removal never changes it. -/
theorem replay_measures (revisions : List Revision) :
    let index := replay revisions
    index.stats.nodes = 1 + (beginnings (Revision.added revisions)).card ∧
      index.stats.nodes = index.trie.root.nodes.length ∧
      index.stats.directNodes =
        index.trie.root.nodes.countP (fun node => 5 ≤ node.nextBytes.card) ∧
      index.stats.directNodes = index.trie.root.nodes.countP Node.isDirect ∧
      (∀ others, Revision.added others = Revision.added revisions →
        (replay others).stats = index.stats) ∧
      ∀ text opIndex, (index.remove text opIndex).stats = index.stats := by
  intro index
  have hcensus : index.stats = index.trie.root.census := stats_replay_eq_census revisions
  have hsame : ∀ others, Revision.added others = Revision.added revisions →
      (replay others).stats = index.stats := by
    intro others hadded
    rw [stats_replay, hadded, ← stats_replay]
  have hfresh : [] ∉ beginnings (Revision.added revisions) := by
    simp [mem_beginnings_iff]
  refine ⟨?_, ?_, ?_, ?_, hsame, ?_⟩
  · rw [stats_replay, sizeFor, Finset.card_insert_of_notMem hfresh, Nat.add_comm]
  · rw [hcensus, Node.census]
  · rw [hcensus, Node.census, countP_isDirect_replay]
  · rw [hcensus, Node.census]
  · intro text opIndex
    have hremoved : index.remove text opIndex = replay (revisions ++ [⟨.remove, text, opIndex⟩]) := by
      rw [replay, List.foldl_append]
      rfl
    rw [hremoved]
    apply hsame
    ext phrase
    simp [Revision.mem_added_iff, or_and_right, exists_or]

/-- Five phrases that part behind `ab`, one of them added twice and a removal of `ab`, and the same
phrases in another order with other spaces. -/
theorem replay_measures_two_orders :
    let first : List Revision :=
      [⟨.add, Text.ofString "ab c", 1⟩, ⟨.add, Text.ofString "abd", 2⟩,
        ⟨.add, Text.ofString " ab  c ", 3⟩, ⟨.remove, Text.ofString "ab", 4⟩,
        ⟨.add, Text.ofString "abe", 5⟩, ⟨.add, Text.ofString "abf", 6⟩,
        ⟨.add, Text.ofString "  ", 7⟩, ⟨.add, Text.ofString "abg", 8⟩]
    let second : List Revision :=
      [⟨.add, Text.ofString "abg", 0⟩, ⟨.add, Text.ofString "abe ", 0⟩,
        ⟨.add, Text.ofString "abf", 0⟩, ⟨.add, Text.ofString "abd", 0⟩,
        ⟨.add, Text.ofString "ab c", 0⟩, ⟨.remove, Text.ofString "abd", 9⟩]
    Revision.added second = Revision.added first ∧ (replay second).stats = (replay first).stats ∧
      (replay first).stats.nodes = 1 + (beginnings (Revision.added first)).card ∧
      (beginnings (Revision.added first)).card = 8 ∧
      (replay first).trie.root.nodes.length = 9 ∧
      (replay first).trie.root.nodes.countP Node.isDirect = 1 := by
  intro first second
  have hadded : Revision.added second = Revision.added first := by decide +kernel
  have hcard : (beginnings (Revision.added first)).card = 8 := by decide +kernel
  have hstats : (replay first).stats = ⟨9, 1⟩ := by decide +kernel
  obtain ⟨hnodes, hlisted, -, hdirect, hsame, -⟩ := replay_measures first
  rw [hstats] at hlisted hdirect
  exact ⟨hadded, hsame second hadded, hnodes, hcard, hlisted.symm, hdirect.symm⟩

end Index

end PhraseLedger
